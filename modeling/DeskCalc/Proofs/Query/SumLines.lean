import DeskCalc.Proofs.Measure.PlainSums
import DeskCalc.Proofs.Query.Calls

/-!
# Lines with a plain sum

A line asks for a plain sum in another unit.  All rules in front of the one for conversions pass it
on, apart from the rule for compact sums, which reads sums without blanks.
-/

namespace DeskCalc.Query

open DeskCalc.Measure (PlainSum PlainTerm isSign isUnitLetter)
open Text (Shape StopsBefore isBlank isDigit)
open Text.Shape (Fits fits_bind fits_char fits_one fits_opt fits_pure of_fits_exactly of_fits_many
  of_fits_many1 of_fits_run of_fits_run1 of_fits_word not_fits_run1 read?_eq_none_iff)

/-- A sum with `gap` between its parts, the keyword and a target. -/
def sumLine (x : PlainSum) (gap target : Text) : Text :=
  x.text gap ++ (" in ".toList ++ target)

/-- Either there is a blank between any two parts, or there is none. -/
def IsGap (gap : Text) : Prop :=
  gap = [] ∨ gap = [' ']

section Lines

variable {x : PlainSum} {gap target s rest : Text} {c : Char}

theorem IsGap.eq_space (h : IsGap gap) : ∀ c ∈ gap, c = ' ' := by
  rcases h with rfl | rfl
  · exact List.forall_mem_nil _
  · exact List.forall_mem_singleton.mpr rfl

theorem IsGap.isBlank (h : IsGap gap) : ∀ c ∈ gap, isBlank c = true := by
  intro c hc
  rw [h.eq_space c hc]
  decide

/-! ## The beginning and the characters of a line -/

/-- A line begins with the first term and a sign. -/
theorem exists_sumLine (x : PlainSum) (gap target : Text) : ∃ c s, isSign c = true ∧
    sumLine x gap target =
      Measure.decimalText x.first.number ++ (gap ++ (x.first.unit ++ (gap ++ c :: s))) := by
  obtain ⟨c, d, s, hc, -, htext⟩ := x.exists_opening gap
  refine ⟨c, gap ++ d :: s ++ (" in ".toList ++ target), hc, ?_⟩
  rw [sumLine, htext, PlainTerm.text]
  simp only [List.append_assoc, List.cons_append]

theorem exists_digit_sumLine (x : PlainSum) (gap target : Text) :
    ∃ d s, sumLine x gap target = d :: s ∧ isDigit d = true := by
  obtain ⟨d, s, hs, hd⟩ := x.first.exists_head
  obtain ⟨c, t, -, hline⟩ := exists_sumLine x gap target
  rw [hline, hs]
  exact ⟨d, _, List.cons_append, hd⟩

/-- The characters of lines. -/
def isLineChar (c : Char) : Bool :=
  PlainSum.isSumChar c || isTargetChar c

theorem isLineChar_sumLine (hgap : IsGap gap) (htarget : ∀ c ∈ target, isTargetChar c = true) :
    ∀ c ∈ sumLine x gap target, isLineChar c = true := by
  have hin : ∀ c ∈ " in ".toList, isLineChar c = true := List.all_eq_true.mp (by decide)
  refine List.forall_mem_append.mpr ⟨fun c hc => ?_, List.forall_mem_append.mpr ⟨hin, fun c hc => ?_⟩⟩
  · rw [isLineChar, x.isSumChar_text hgap.eq_space c hc, Bool.true_or]
  · rw [isLineChar, htarget c hc, Bool.or_true]

theorem not_mem_sumLine (hgap : IsGap gap) (htarget : ∀ c ∈ target, isTargetChar c = true)
    (hc : isLineChar c = false) : c ∉ sumLine x gap target := by
  intro hmem
  rw [isLineChar_sumLine hgap htarget c hmem] at hc
  cases hc

/-! ## Answers that are laid down, and constants -/

/-- Whether a text begins with an amount, a unit of letters and a sign. -/
def opensSum (s : Text) : Bool :=
  let behind := s.dropWhile isAmountChar
  behind.head?.any isUnitLetter &&
    ((behind.dropWhile isUnitLetter).dropWhile isBlank).head?.any isSign

theorem isAmountChar_of_isUnitLetter (hc : isUnitLetter c = true) : isAmountChar c = false := by
  by_contra hamount
  rw [Bool.not_eq_false] at hamount
  have hmark := isUnitMark_of_isAmountChar hamount
  have htarget := Measure.isTargetChar_of_isUnitLetter hc
  have hsign : c ≠ '-' ∧ c ≠ '/' := by
    constructor
    · rintro rfl
      cases hc
    · rintro rfl
      cases hc
  simp [isUnitMark, htarget, hsign] at hmark

theorem isBlank_of_isSign (hc : isSign c = true) : isBlank c = false := by
  by_contra hblank
  rw [Bool.not_eq_false] at hblank
  rw [Measure.not_sign_of_isBlank hblank] at hc
  cases hc

theorem isUnitLetter_of_isSign (hc : isSign c = true) : isUnitLetter c = false := by
  by_contra hletter
  rw [Bool.not_eq_false] at hletter
  rw [Measure.isSign_of_isUnitLetter hletter] at hc
  cases hc

/-- The unit of the first term ends where a gap or a sign follows. -/
theorem stopsBefore_sign {p : Char → Bool} (hgap : IsGap gap) (hc : p c = false)
    (hspace : p ' ' = false) (s : Text) : StopsBefore p (gap ++ c :: s) := by
  rcases hgap with rfl | rfl
  · exact Text.stopsBefore_cons.mpr hc
  · exact Text.stopsBefore_cons.mpr hspace

theorem opensSum_sumLine (hgap : IsGap gap) : opensSum (sumLine x gap target) = true := by
  obtain ⟨c, s, hc, hline⟩ := exists_sumLine x gap target
  obtain ⟨a, u, hunit, ha⟩ := x.first.exists_unit_head
  have hamount : ∀ c ∈ Measure.decimalText x.first.number ++ gap, isAmountChar c = true :=
    List.forall_mem_append.mpr ⟨x.first.wellFormed.isAmountChar_literal,
      fun c hc => isAmountChar_of_isBlank (hgap.isBlank c hc)⟩
  have hstop : StopsBefore isAmountChar (x.first.unit ++ (gap ++ c :: s)) := by
    rw [hunit, List.cons_append]
    exact Text.stopsBefore_cons.mpr (isAmountChar_of_isUnitLetter ha)
  have hbehind : (sumLine x gap target).dropWhile isAmountChar =
      x.first.unit ++ (gap ++ c :: s) := by
    rw [hline, ← List.append_assoc, Text.dropWhile_run hamount hstop]
  have hhead : (x.first.unit ++ (gap ++ c :: s)).head?.any isUnitLetter = true := by
    rw [hunit]
    exact ha
  have hsign : ((x.first.unit ++ (gap ++ c :: s)).dropWhile isUnitLetter).dropWhile isBlank =
      c :: s := by
    rw [Text.dropWhile_run x.first.letters.2
      (stopsBefore_sign hgap (isUnitLetter_of_isSign hc) (by decide) _),
      Text.dropWhile_run hgap.isBlank (Text.stopsBefore_cons.mpr (isBlank_of_isSign hc))]
  rw [opensSum]
  simp only [hbehind, hhead, hsign]
  exact hc

theorem answerFixed_sumLine (hgap : IsGap gap) : answerFixed (sumLine x gap target) = .pass := by
  have hnone : fixedAnswers.lookup (String.ofList (sumLine x gap target)) = none := by
    rw [List.lookup_eq_none_iff]
    intro a ha
    rw [bne_iff_ne]
    intro heq
    have hopens : fixedAnswers.all (fun a => !opensSum a.1.toList) = true := by decide +kernel
    have hnot := List.all_eq_true.mp hopens a ha
    rw [← heq, String.toList_ofList, opensSum_sumLine hgap] at hnot
    cases hnot
  rw [answerFixed, hnone]
  rfl

theorem answerConstant_sumLine : answerConstant (sumLine x gap target) = .pass := by
  have hspace : ' ' ∈ sumLine x gap target :=
    List.mem_append_right _ (List.mem_append_left _ (by decide))
  have hlower : ' ' ∈ Text.lower (sumLine x gap target) :=
    Text.mem_lowerAfter hspace (by decide) (by decide)
  have hnone : (Constant.all.find? fun c =>
      c.1.toList.map Char.toLower == Text.lower (sumLine x gap target)) = none := by
    rw [List.find?_eq_none]
    intro c hc heq
    have hnames : Constant.all.all (fun c => !(c.1.toList.map Char.toLower).contains ' ') =
        true := by
      decide
    have hname := List.all_eq_true.mp hnames c hc
    rw [beq_iff_eq.mp heq, List.contains_iff_mem.mpr hlower] at hname
    cases hname
  simp only [answerConstant, hnone]

/-! ## Calls, powers, products and groups -/

theorem isLetterAnyCase_of_isDigit (hc : isDigit c = true) : Text.isLetterAnyCase c = false := by
  by_contra hletter
  rw [Bool.not_eq_false] at hletter
  rw [isDigit_of_isTargetChar (isTargetChar_of_isLetterAnyCase hletter)] at hc
  cases hc

theorem answerCall_sumLine : answerCall (sumLine x gap target) = .pass := by
  obtain ⟨d, s, hline, hd⟩ := exists_digit_sumLine x gap target
  have hnone : functionCall.read? (sumLine x gap target) = none := by
    rw [read?_eq_none_iff, hline]
    rintro call rest hfits
    simp only [functionCall, fits_bind] at hfits
    obtain ⟨name, t, hname, -⟩ := hfits
    exact not_fits_run1 (Text.stopsBefore_cons.mpr (isLetterAnyCase_of_isDigit hd)) hname
  rw [answerCall, hnone]

theorem answerDoubleStar_sumLine (hgap : IsGap gap)
    (htarget : ∀ c ∈ target, isTargetChar c = true) :
    answerDoubleStar (sumLine x gap target) = .pass := by
  have hstars : ¬Text.occursIn ['*', '*'] (sumLine x gap target) = true := by
    intro hoccurs
    obtain ⟨front, behind, hsplit⟩ := Text.occursIn_iff.mp hoccurs
    have hstar : '*' ∉ sumLine x gap target := not_mem_sumLine hgap htarget (by decide)
    exact hstar (hsplit ▸ by simp)
  rw [answerDoubleStar, if_neg hstars]

theorem answerProduct_sumLine (hgap : IsGap gap) (htarget : ∀ c ∈ target, isTargetChar c = true) :
    answerProduct (sumLine x gap target) = .pass := by
  have hnone : productShape.read? (sumLine x gap target) = none := by
    rw [read?_eq_none_iff]
    rintro parts rest hfits
    simp only [productShape, fits_bind] at hfits
    obtain ⟨n, t₁, hn, g, t₂, hg, u, t₃, hu, _, t₄, htimes, -⟩ := hfits
    obtain ⟨w, hw, -⟩ := of_fits_decimal hn
    obtain ⟨-, rfl⟩ := of_fits_run hg
    obtain ⟨-, -, rfl⟩ := of_fits_run1 hu
    obtain ⟨sign, rfl, hsign⟩ := of_timesSign htimes
    have hmem : '*' ∈ bare sign := hsign ▸ List.mem_singleton_self _
    have hstar : '*' ∉ sumLine x gap target := not_mem_sumLine hgap htarget (by decide)
    exact hstar (by rw [← hw]; simp [(mem_bare.mp hmem).1])
  rw [answerProduct, hnone]
  rfl

theorem answerGroup_sumLine : answerGroup (sumLine x gap target) = .pass := by
  obtain ⟨d, s, hline, hd⟩ := exists_digit_sumLine x gap target
  have hopening : d ≠ '(' := by
    rintro rfl
    revert hd
    decide
  have henclosed : enclosed.read? (sumLine x gap target) = none := by
    rw [read?_eq_none_iff, hline]
    rintro parts rest hfits
    simp only [enclosed, fits_bind, fits_char] at hfits
    obtain ⟨_, _, ⟨hsplit, -⟩, -⟩ := hfits
    exact hopening (List.cons.inj hsplit).1
  have hnested : nestedGroup.read? (sumLine x gap target) = none := by
    rw [read?_eq_none_iff, hline]
    rintro parts rest hfits
    simp only [nestedGroup, fits_bind] at hfits
    obtain ⟨w, t, hw, -⟩ := hfits
    obtain ⟨hne, hchars, hsplit⟩ := of_fits_many1 hw
    obtain ⟨b, w, rfl⟩ := List.exists_cons_of_ne_nil hne
    obtain ⟨rfl, -⟩ := List.cons.inj hsplit
    exact hopening (beq_iff_eq.mp (hchars b List.mem_cons_self))
  rw [answerGroup, henclosed, hnested]
  rfl

/-! ## Temperatures, money and heights -/

theorem isLetterAnyCase_of_isSign (hc : isSign c = true) : Text.isLetterAnyCase c = false := by
  rw [isSign, Bool.or_eq_true, beq_iff_eq, beq_iff_eq] at hc
  rcases hc with rfl | rfl <;> decide

/-- Blanks in front of a sign are the gap. -/
theorem eq_of_fits_blanks {v w : Text} (hgap : IsGap gap) (hc : isSign c = true)
    (hv : ∀ b ∈ v, isBlank b = false) (h : Fits Shape.blanks1 (v ++ (gap ++ c :: s)) w rest) :
    v = [] ∧ rest = c :: s := by
  obtain rfl : v = [] := by
    by_contra hne
    obtain ⟨b, v, rfl⟩ := List.exists_cons_of_ne_nil hne
    exact not_fits_run1 (Text.stopsBefore_cons.mpr (hv b List.mem_cons_self)) h
  rw [List.nil_append] at h
  exact ⟨rfl, (Measure.eq_of_fits_run1 h hgap.isBlank
    (Text.stopsBefore_cons.mpr (isBlank_of_isSign hc))).2⟩

/-- No keyword stands where a sign follows. -/
theorem not_fits_keyword {w : String} {v : Text} {u : Unit} (hw : w ∈ ["in", "to"])
    (hgap : IsGap gap) (hc : isSign c = true) (hv : ∀ b ∈ v, isBlank b = false) :
    ¬Fits (keyword w) (v ++ (gap ++ c :: s)) u rest := by
  intro hfits
  simp only [keyword, fits_bind] at hfits
  obtain ⟨before, t, hbefore, word, t', hword, -⟩ := hfits
  obtain ⟨rfl, rfl⟩ := eq_of_fits_blanks hgap hc hv hbefore
  obtain ⟨hsame, hsplit⟩ := of_fits_word hword
  have hlineword : w ∈ lineWords := by
    rcases List.mem_pair.mp hw with rfl | rfl <;> decide
  obtain ⟨hne, hletters⟩ := letters_of_word hlineword hsame
  obtain ⟨b, word, rfl⟩ := List.exists_cons_of_ne_nil hne
  obtain ⟨rfl, -⟩ := List.cons.inj hsplit
  have hletter := hletters b List.mem_cons_self
  rw [isLetterAnyCase_of_isSign hc] at hletter
  cases hletter

/-- What is read at the beginning of a unit leaves a part of it. -/
theorem exists_rest {p : Char → Bool} {unit behind w : Text} (hw : ∀ b ∈ w, p b = true)
    (hstop : StopsBefore p behind) (h : w ++ rest = unit ++ behind) :
    ∃ v, (∀ b ∈ v, b ∈ unit) ∧ rest = v ++ behind := by
  rcases List.append_eq_append_iff.mp h with ⟨v, rfl, hrest⟩ | ⟨v, hv, hrest⟩
  · exact ⟨v, fun b hb => List.mem_append_right _ hb, hrest⟩
  · cases v with
    | nil => exact ⟨[], List.forall_mem_nil _, hrest.symm⟩
    | cons b v =>
      have hb : p b = true := hw b (by simp [hv])
      rw [hrest, List.cons_append, Text.stopsBefore_cons, hb] at hstop
      cases hstop

/-- Behind a decimal that a line begins with, its first unit follows, or a point. -/
theorem rest_of_decimal {n : Number.Numeral} (hgap : IsGap gap)
    (h : Fits Measure.decimal (sumLine x gap target) n rest) : (∃ c s, isSign c = true ∧
      rest = gap ++ (x.first.unit ++ (gap ++ c :: s))) ∨ ∃ u, rest = '.' :: u := by
  obtain ⟨c, s, hc, hline⟩ := exists_sumLine x gap target
  obtain ⟨hdigit, hpoint⟩ := x.first.stopsBefore_text hgap.isBlank (gap ++ c :: s)
  rw [hline] at h
  rcases x.first.rest_of_decimal h hdigit hpoint with hrest | hrest
  · exact .inl ⟨c, s, hc, hrest⟩
  · exact .inr hrest

theorem answerTemperature_sumLine (hgap : IsGap gap) :
    answerTemperature (sumLine x gap target) = .pass := by
  have hnone : temperatureShape.read? (sumLine x gap target) = none := by
    rw [read?_eq_none_iff]
    rintro parts rest hfits
    simp only [temperatureShape, fits_bind] at hfits
    obtain ⟨sign, t, hsign, n, t₁, hn, g, t₂, hg, source, t₃, hsource, _, t₄, hkeyword, -⟩ := hfits
    obtain ⟨d, s, hline, hd⟩ := exists_digit_sumLine x gap target
    rcases fits_opt.mp hsign with ⟨_, -, hminus⟩ | ⟨-, rfl⟩
    · obtain ⟨hsplit, -⟩ := fits_char.mp hminus
      rw [hline] at hsplit
      obtain ⟨rfl, -⟩ := List.cons.inj hsplit
      revert hd
      decide
    · obtain ⟨rfl, hscale⟩ := fits_one.mp hsource
      rcases rest_of_decimal hgap hn with ⟨c, s, hc, rfl⟩ | ⟨u, rfl⟩
      · obtain ⟨a, u, hunit, ha⟩ := x.first.exists_unit_head
        have hvisible := x.first.visible_unit
        rw [hunit] at hg hvisible
        obtain ⟨hfirst, hvisible⟩ := List.forall_mem_cons.mp hvisible
        obtain ⟨-, hsplit⟩ := Measure.eq_of_fits_run hg hgap.isBlank (Text.stopsBefore_cons.mpr hfirst)
        obtain ⟨-, rfl⟩ := List.cons.inj hsplit
        exact not_fits_keyword (by simp) hgap hc hvisible hkeyword
      · have hstop : StopsBefore isBlank ('.' :: u) := Text.stopsBefore_cons.mpr (by decide)
        obtain ⟨-, hsplit⟩ := Text.Shape.fits_run.mp hg
        rw [Text.dropWhile_of_stops hstop] at hsplit
        obtain ⟨rfl, -⟩ := List.cons.inj hsplit
        revert hscale
        decide
  rw [answerTemperature, hnone]
  rfl

theorem answerCurrency_sumLine (hgap : IsGap gap) :
    answerCurrency (sumLine x gap target) = .pass := by
  have hnone : currencyShape.read? (sumLine x gap target) = none := by
    rw [read?_eq_none_iff]
    rintro parts rest hfits
    simp only [currencyShape, currencyCode, fits_bind, fits_one, fits_pure] at hfits
    obtain ⟨n, t₁, hn, g, t₂, hg, code, t₃, ⟨a, _, ⟨rfl, ha⟩, b, _, ⟨rfl, hb⟩, d, _, ⟨rfl, hd⟩, -, rfl⟩,
      _, t₄, hkeyword, -⟩ := hfits
    rcases rest_of_decimal hgap hn with ⟨c, s, hc, rfl⟩ | ⟨u, rfl⟩
    · have hunit := x.first.visible_unit
      obtain ⟨-, hsplit⟩ := Measure.eq_of_fits_run1 hg hgap.isBlank (x.first.stopsBefore_unit hunit _)
      have hletters : ∀ e ∈ [a, b, d], Text.isLetterAnyCase e = true := by simp [ha, hb, hd]
      obtain ⟨v, hv, rfl⟩ := exists_rest hletters
        (stopsBefore_sign hgap (isLetterAnyCase_of_isSign hc) (by decide) s) hsplit
      exact not_fits_keyword (by simp) hgap hc (fun e he => hunit e (hv e he)) hkeyword
    · exact not_fits_run1 (Text.stopsBefore_cons.mpr (by decide)) hg
  rw [answerCurrency, hnone]
  rfl

theorem answerFeetInches_sumLine (hgap : IsGap gap) :
    answerFeetInches (sumLine x gap target) = .pass := by
  have hnone : feetInchesShape.read? (sumLine x gap target) = none := by
    rw [read?_eq_none_iff]
    rintro parts rest hfits
    simp only [feetInchesShape, fits_bind, fits_char] at hfits
    obtain ⟨feet, t₁, hfeet, g, t₂, hg, _, t₃, ⟨rfl, -⟩, -⟩ := hfits
    obtain ⟨c, s, hc, hline⟩ := exists_sumLine x gap target
    rw [hline] at hfeet
    rcases x.first.decimalText_cases with ⟨htext, -⟩ | ⟨htext, -⟩
    · rw [htext] at hfeet
      obtain ⟨-, rfl⟩ := Measure.eq_of_fits_run1 hfeet x.first.digits.2
        (x.first.stopsBefore_text hgap.isBlank (gap ++ c :: s)).1
      obtain ⟨-, hsplit⟩ := Measure.eq_of_fits_run hg hgap.isBlank
        (x.first.stopsBefore_unit x.first.visible_unit _)
      obtain ⟨a, u, hunit, ha⟩ := x.first.exists_unit_head
      rw [hunit] at hsplit
      obtain ⟨rfl, -⟩ := List.cons.inj hsplit
      cases ha
    · rw [htext, List.append_assoc, List.cons_append] at hfeet
      obtain ⟨-, rfl⟩ := Measure.eq_of_fits_run1 hfeet x.first.digits.2
        (Text.stopsBefore_cons.mpr (by decide))
      obtain ⟨-, hsplit⟩ := Text.Shape.fits_run.mp hg
      rw [Text.dropWhile_of_stops (Text.stopsBefore_cons.mpr (by decide))] at hsplit
      cases hsplit
  rw [answerFeetInches, hnone]

/-! ## Sums in a base -/

section Known

variable {d : Dimension}

/-- In lower case, targets consist of the same letters, unless there is a dotted capital. -/
theorem sameLetters_lowerAfter {before name : Text} (htarget : ∀ c ∈ target, isTargetChar c = true)
    (hdots : ∀ c ∈ Text.lowerAfter before target, c.toNat ≠ 0x307) :
    Text.sameLetters (Text.lowerAfter before target) name = Text.sameLetters target name := by
  induction target generalizing before name with
  | nil => rfl
  | cons c target ih =>
    obtain ⟨hc, htarget⟩ := List.forall_mem_cons.mp htarget
    have hchar := @of_isTargetChar (fun c => c == 'İ' || (c != 'Σ' &&
      Text.letterKey (Text.lowerChar c) == Text.letterKey c)) (by decide +kernel) c hc
    rw [Bool.or_eq_true, beq_iff_eq, Bool.and_eq_true, bne_iff_ne, beq_iff_eq] at hchar
    rcases hchar with rfl | ⟨hsigma, hkey⟩
    · exact absurd rfl (hdots (Char.ofNat 0x307) (by simp [Text.lowerAfter]))
    · have hdotted : c ≠ 'İ' := by
        rintro rfl
        exact hdots (Char.ofNat 0x307) (by simp [Text.lowerAfter]) rfl
      have hlower : Text.lowerAfter before (c :: target) =
          Text.lowerChar c :: Text.lowerAfter (c :: before) target := by
        simp [Text.lowerAfter, hsigma, hdotted]
      rw [hlower] at hdots ⊢
      obtain ⟨-, hdots⟩ := List.forall_mem_cons.mp hdots
      cases name with
      | nil => rfl
      | cons a name =>
        rw [Text.sameLetters, Text.sameLetters, ih htarget hdots, Text.sameLetter, Text.sameLetter,
          hkey]

/-- No unit that is found is the name of a base. -/
theorem not_base (htarget : ∀ c ∈ target, isTargetChar c = true)
    (hknown : (d.find? target).isSome = true) :
    ∀ name ∈ Dimension.baseNames, Text.sameLetters target name = false := by
  have hvisible : ∀ c ∈ target, isBlank c = false := fun c hc => isBlank_of_isTargetChar (htarget c hc)
  intro name hname
  rcases Measure.isUsual_of_find? hvisible hknown with husual | husual
  · obtain ⟨-, -, -, -, hnames, -⟩ := Dimension.isUsual_iff.mp husual
    exact hnames name hname
  · obtain ⟨-, -, -, -, hnames, hdots⟩ := Dimension.isUsual_iff.mp husual
    rw [← sameLetters_lowerAfter htarget hdots]
    exact hnames name hname

/-- A line ends in one target only, and one keyword stands in front of it. -/
theorem eq_of_ends {front value key last tail : Text} {w : String} (htarget : target ≠ [])
    (hvisible : ∀ c ∈ target, isBlank c = false) (hkey : Keyword w key)
    (hlast : ∀ c ∈ last, isBlank c = false) (htail : ∀ c ∈ tail, isBlank c = true)
    (h : front ++ (" in ".toList ++ target) = value ++ (key ++ (last ++ tail))) :
    last = target ∧ value ++ key = front ++ " in ".toList := by
  have hspace : isBlank ' ' = true := by decide
  have hword : lastWord (front ++ (" in ".toList ++ target)) = target := by
    have hsplit : front ++ (" in ".toList ++ target) = (front ++ [' ', 'i', 'n']) ++ ' ' :: target := by
      simp
    rw [hsplit, lastWord_append hspace hvisible]
  obtain rfl : tail = [] := by
    by_contra hne
    have hassoc : value ++ (key ++ (last ++ tail)) = (value ++ (key ++ last)) ++ tail := by
      simp only [List.append_assoc]
    rw [h, hassoc, lastWord_blanks hne htail] at hword
    exact htarget hword.symm
  have hsame : last = target := by
    cases hkey with
    | @mk before word behind _ _ _ hbehind hblanks =>
      obtain ⟨g, b, rfl⟩ := (List.eq_nil_or_concat behind).resolve_left hbehind
      have hsplit : value ++ (before ++ (word ++ g.concat b) ++ (last ++ [])) =
          (value ++ (before ++ (word ++ g))) ++ b :: last := by
        simp
      rw [h, hsplit, lastWord_append (hblanks b (by simp)) hlast] at hword
      exact hword
  subst hsame
  have hsplit : (value ++ key) ++ last = (front ++ " in ".toList) ++ last := by
    simpa using h.symm
  exact ⟨rfl, List.append_cancel_right hsplit⟩

theorem answerBase_sumLine (htarget : Measure.IsRow isTargetChar target)
    (hknown : (d.find? target).isSome = true) : answerBase (sumLine x gap target) = .pass := by
  have hnone : baseShape.read? (sumLine x gap target) = none := by
    rw [read?_eq_none_iff]
    rintro parts rest hfits
    simp only [baseShape, fits_bind] at hfits
    obtain ⟨value, t₁, hvalue, _, t₂, hkeyword, base, t₃, hbase, _, t₄, hend, -⟩ := hfits
    obtain ⟨-, -, hsplit⟩ := of_fits_many1 hvalue
    obtain ⟨key, hkey, rfl⟩ := of_keyword hkeyword
    obtain ⟨name, hname, hword⟩ := Text.Shape.fits_anyWord.mp hbase
    obtain ⟨hsame, rfl⟩ := of_fits_word hword
    obtain ⟨w, hw, rfl⟩ : ∃ w ∈ lineWords, name = w.toList := by
      simp only [List.mem_cons, List.not_mem_nil, or_false] at hname
      rcases hname with rfl | rfl | rfl | rfl
      · exact ⟨"hex", by decide, rfl⟩
      · exact ⟨"octal", by decide, rfl⟩
      · exact ⟨"binary", by decide, rfl⟩
      · exact ⟨"decimal", by decide, rfl⟩
    obtain ⟨hne, hletters⟩ := letters_of_word hw hsame
    obtain ⟨rfl, -⟩ := eq_of_ends htarget.1 (fun c hc => isBlank_of_isTargetChar (htarget.2 c hc)) hkey
      (fun c hc => isBlank_of_isLetterAnyCase (hletters c hc)) (isBlank_of_atEnd hend) hsplit.symm
    rw [not_base htarget.2 hknown _ hname] at hsame
    cases hsame
  rw [answerBase, hnone]

end Known

end Lines

end DeskCalc.Query
