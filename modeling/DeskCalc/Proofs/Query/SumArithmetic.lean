import DeskCalc.Proofs.Query.SumLines

/-!
# Lines with a plain sum in arithmetic

Arithmetic replaces the names of constants and reads what is left as an expression.  Behind the
number of a first term with a known unit stands neither an exponent nor an angle, whatever has been
replaced there, so that the line has no value.
-/

namespace DeskCalc.Query

open DeskCalc.Measure (PlainSum isSign isUnitLetter)
open Text (StopsBefore isBlank isDigit)

section Lines

variable {x : PlainSum} {gap target s rest : Text} {c : Char}

/-! ## Names that are replaced -/

section Replaced

open Expression (Angles Grouped Names degreeWords extendedTable isNumberChar)

variable {run t u : Text}

/-- Up to its first parenthesis, the text `t` is the beginning of `s`. -/
def Imitates (s t : Text) : Prop :=
  t ≠ [] ∧ ∀ w, w <+: t → '(' ∉ w → w <+: s

theorem Imitates.refl (hs : s ≠ []) : Imitates s s :=
  ⟨hs, fun _ hw _ => hw⟩

theorem Imitates.grouped {p : Text → Text → Prop} (h : Imitates s t) (hgrouped : Grouped p t u) :
    Imitates s u := by
  constructor
  · rintro rfl
    rcases hgrouped.head? with hsame | hopening
    · exact h.1 (List.head?_eq_none_iff.mp hsame.symm)
    · cases hopening
  · intro w hw hopening
    exact h.2 w (hgrouped.isPrefix hw hopening) hopening

/-- The first character is that of the text before, or a parenthesis. -/
theorem Imitates.head (h : Imitates (c :: s) t) : ∃ b v, t = b :: v ∧ (b = c ∨ b = '(') := by
  obtain ⟨b, v, rfl⟩ := List.exists_cons_of_ne_nil h.1
  refine ⟨b, v, rfl, or_iff_not_imp_right.mpr fun hb => ?_⟩
  have hfirst : [b] <+: c :: s := h.2 [b] ⟨v, rfl⟩ (by simpa using Ne.symm hb)
  exact (List.cons_prefix_cons.mp hfirst).1

/-- A name that begins with a letter is replaced behind a text without letters only. -/
theorem exists_replace {n : Text.NameSearch} (hname : n.name.head?.any Text.isLetterAnyCase = true)
    (hrun : ∀ c ∈ run, Text.isLetterAnyCase c = false) (h : Imitates s t) (x : Float) :
    ∃ u, n.replace (bracketed x) (run ++ t) = run ++ u ∧ Imitates s u := by
  obtain ⟨a, name, hcons⟩ : ∃ a name, n.name = a :: name := by
    apply List.exists_cons_of_ne_nil
    rintro hnil
    rw [hnil] at hname
    cases hname
  have ha : Text.isLetterAnyCase a = true := by simpa [hcons] using hname
  have hgrouped : Grouped (Names n.anyCase n.name (Number.numberText x)) (run ++ t)
      (n.replace (bracketed x) (run ++ t)) :=
    Expression.grouped_replace (by simp [hcons]) _ _
  obtain ⟨u, hu, hbehind⟩ := hgrouped.of_append fun w hw hne piece inside after hpiece hsplit => by
    obtain ⟨c, w, rfl⟩ := List.exists_cons_of_ne_nil hne
    have hc := hrun c (hw.subset List.mem_cons_self)
    obtain ⟨hnamed, -⟩ := hpiece
    have hletter : ∃ b v, piece = b :: v ∧ Text.isLetterAnyCase b = true := by
      rw [hcons, Text.IsNamed] at hnamed
      cases hcase : n.anyCase with
      | false =>
        rw [hcase, if_neg Bool.false_ne_true, beq_iff_eq] at hnamed
        exact ⟨a, name, hnamed, ha⟩
      | true =>
        rw [hcase, if_pos rfl] at hnamed
        cases piece with
        | nil => cases hnamed
        | cons b v =>
          rw [Text.sameLetters, Bool.and_eq_true, Text.sameLetter, beq_iff_eq] at hnamed
          exact ⟨b, v, rfl, by rw [Text.isLetterAnyCase, hnamed.1]; exact ha⟩
    obtain ⟨b, v, rfl, hb⟩ := hletter
    obtain ⟨rfl, -⟩ := List.cons.inj hsplit
    rw [hc] at hb
    cases hb
  exact ⟨u, hu, h.grouped hbehind⟩

theorem exists_named {constants : List (String × Float)}
    (hnames : ∀ c ∈ constants, c.1.toList.head?.any Text.isLetterAnyCase = true)
    (hrun : ∀ c ∈ run, Text.isLetterAnyCase c = false) (h : Imitates s t) :
    ∃ u, constants.foldl (fun t c => Text.replaceWord c.1.toList (bracketed c.2) t) (run ++ t) =
      run ++ u ∧ Imitates s u := by
  induction constants generalizing t with
  | nil => exact ⟨t, rfl, h⟩
  | cons c constants ih =>
    obtain ⟨hname, hnames⟩ := List.forall_mem_cons.mp hnames
    obtain ⟨v, hv, himitates⟩ := exists_replace (n := ⟨c.1.toList, false, true⟩) hname hrun h c.2
    rw [List.foldl_cons, Text.replaceWord, hv]
    exact ih hnames himitates

/-- Behind a number without letters, arithmetic replaces names in what follows. -/
theorem exists_replacePiWords (hrun : ∀ c ∈ run, Text.isLetterAnyCase c = false) (hs : s ≠ []) :
    ∃ u, replacePiWords (Constant.all.foldl
      (fun t c => Text.replaceWord c.1.toList (bracketed c.2) t) (run ++ s)) = run ++ u ∧
        Imitates s u := by
  have hnames : ∀ c ∈ Constant.all, c.1.toList.head?.any Text.isLetterAnyCase = true :=
    List.all_eq_true.mp (by decide)
  obtain ⟨t, ht, himitates⟩ := exists_named hnames hrun (.refl hs)
  obtain ⟨u, hu, himitates⟩ :=
    exists_replace (n := ⟨['p', 'i'], true, true⟩) (by decide) hrun himitates Constant.pi
  obtain ⟨v, hv, himitates⟩ :=
    exists_replace (n := ⟨['e'], true, true⟩) (by decide) hrun himitates Constant.euler
  refine ⟨v, ?_, himitates⟩
  rw [ht, replacePiWords, replaceEuler, Text.replaceWordAnyCase, Text.replaceWordAnyCase, hu, hv]

end Replaced

/-! ## Numbers with units -/

section Refused

open Expression (Angles Grouped degreeWords isNumberChar mayFollow prepare)
open Session (isKept)

variable {number unit t : Text}

theorem isKept_of_isUnitLetter (hc : isUnitLetter c = true) : isKept c = true := by
  have hcomma : c ≠ ',' := by
    rintro rfl
    cases hc
  have hblank : isBlank c = false := isBlank_of_isTargetChar (Measure.isTargetChar_of_isUnitLetter hc)
  simp [isKept, hblank, hcomma]

theorem isKept_of_isNumberChar (hc : isNumberChar c = true) : isKept c = true := by
  rw [isNumberChar, Bool.or_eq_true, beq_iff_eq] at hc
  rcases hc with hdigit | rfl
  · exact Session.isKept_of_isDigit hdigit
  · decide

/-- Evaluation drops the blanks between two things that it keeps. -/
theorem filter_isKept_gap {run : Text} (hrun : ∀ b ∈ run, isKept b = true) (hgap : IsGap gap)
    (hc : isKept c = true) :
    (run ++ (gap ++ c :: s)).filter isKept = run ++ c :: s.filter isKept := by
  have hspace : gap.filter isKept = [] := by
    rw [List.filter_eq_nil_iff]
    intro b hb
    rw [hgap.eq_space b hb]
    decide
  rw [List.filter_append, List.filter_append, List.filter_eq_self.mpr hrun, hspace, List.nil_append,
    List.filter_cons_of_pos hc]

/-- What begins like the word for degrees begins like the unit, which does not. -/
theorem not_degrees (hunit : ∀ c ∈ unit, isUnitLetter c = true) (hdegree : ¬"degree".toList <+: unit)
    (hgap : IsGap gap) (hc : isSign c = true) (h : Imitates (unit ++ (gap ++ c :: s)) t)
    {word : Text} (hword : word ∈ degreeWords) : ¬word <+: t.filter isKept := by
  intro hprefix
  have hletters : degreeWords.all (fun w => w.all (fun c => Text.isLetter c) &&
      "degree".toList.isPrefixOf w) = true := by decide
  have hboth := List.all_eq_true.mp hletters word hword
  rw [Bool.and_eq_true, List.all_eq_true, List.isPrefixOf_iff_prefix] at hboth
  obtain ⟨hletters, hlong⟩ := hboth
  have hnot {b : Char} (hb : Text.isLetter b = false) : b ∉ word := by
    intro hmem
    rw [hletters b hmem] at hb
    cases hb
  obtain ⟨w, hw, rfl⟩ := List.prefix_filter_iff.mp hprefix
  have hopening : '(' ∉ w := by
    intro hmem
    exact hnot (by decide) (List.mem_filter.mpr ⟨hmem, by decide⟩)
  have hstart : w.filter isKept <+: (unit ++ (gap ++ c :: s)).filter isKept :=
    (h.2 w hw hopening).filter _
  have hcs : isKept c = true := by
    have hblank := isBlank_of_isSign hc
    have hcomma : c ≠ ',' := by
      rintro rfl
      cases hc
    simp [isKept, hblank, hcomma]
  rw [filter_isKept_gap (fun c hc => isKept_of_isUnitLetter (hunit c hc)) hgap hcs] at hstart
  rcases List.prefix_or_prefix_of_prefix hstart (List.prefix_append unit _) with hword | ⟨v, hv⟩
  · exact hdegree (hlong.trans hword)
  · rw [← hv] at hstart
    have hbehind := (List.prefix_append_right_inj unit).mp hstart
    cases v with
    | nil => exact hdegree (hlong.trans ⟨[], by rw [← hv]; simp⟩)
    | cons b v =>
      obtain ⟨rfl, -⟩ := List.cons_prefix_cons.mp hbehind
      have hletter : Text.isLetter b = false := Measure.not_letter_of_isSign hc
      exact hnot hletter (by rw [← hv]; simp)

theorem not_number_of_isUnitLetter (hc : isUnitLetter c = true) :
    isNumberChar c = false ∧ mayFollow c = false := by
  rw [isUnitLetter, Bool.or_eq_true, beq_iff_eq] at hc
  rcases hc with hletter | rfl
  · constructor
    · by_contra hnumber
      rw [Bool.not_eq_false] at hnumber
      rw [Expression.isLetter_of_isNumberChar hnumber] at hletter
      cases hletter
    · apply mayFollow_of_isNameChar
      have halpha : c.isAlpha = true := hletter
      simp [Session.isNameChar, Char.isAlphanum, halpha]
  · constructor <;> decide

/-- In front of a text that begins with the unit of a term, no number of degrees stands. -/
theorem no_angle (hnumber : ∀ c ∈ number, isNumberChar c = true) {b : Char} {r : Text}
    (hb : isNumberChar b = false) (hdigit : isDigit b = false)
    (hdegrees : ∀ word ∈ degreeWords, ¬word <+: b :: r) {w : Text} (hw : w <:+ number)
    {piece inside after : Text} (hpiece : Angles piece inside) :
    w ++ b :: r ≠ piece ++ after := by
  intro hsplit
  obtain ⟨digits, fraction, word, rfl, -, hdigits, hfraction, hword⟩ := hpiece
  let p : Char → Bool := fun c => isDigit c || c == '.'
  have hwhole : ∀ c ∈ w, p c = true := by
    intro c hc
    have hchar := hnumber c (hw.subset hc)
    rw [isNumberChar, Bool.or_eq_true] at hchar
    rcases hchar with hbasic | hpoint
    · simp [p, Expression.isDigit_of_basic hbasic]
    · simp [p, hpoint]
  have hstop : StopsBefore p (b :: r) := by
    rw [Text.stopsBefore_cons]
    have hpoint : (b == '.') = false := by
      rw [isNumberChar, Bool.or_eq_false_iff] at hb
      exact hb.2
    simp [p, hdigit, hpoint]
  have hpart : ∀ c ∈ digits ++ fraction, p c = true := by
    refine List.forall_mem_append.mpr ⟨fun c hc => by simp [p, hdigits c hc], ?_⟩
    rcases hfraction with rfl | ⟨ds, rfl, hds⟩
    · exact List.forall_mem_nil _
    · exact List.forall_mem_cons.mpr ⟨by simp [p], fun c hc => by simp [p, hds c hc]⟩
  have hstop' : StopsBefore p (word ++ after) := by
    simp only [degreeWords, List.mem_cons, List.not_mem_nil, or_false] at hword
    rcases hword with rfl | rfl <;> rfl
  have hrest : b :: r = word ++ after := by
    have hassoc : w ++ b :: r = (digits ++ fraction) ++ (word ++ after) := by
      rw [hsplit]
      simp only [List.append_assoc]
    have hdrop := congrArg (List.dropWhile p) hassoc
    rwa [Text.dropWhile_run hwhole hstop, Text.dropWhile_run hpart hstop'] at hdrop
  exact hdegrees word hword (hrest ▸ List.prefix_append word after)

/-- A number with a unit behind it is no expression, whatever names have been replaced. -/
theorem value?_eq_none (hne : number ≠ []) (hnumber : ∀ c ∈ number, isNumberChar c = true)
    (hunit : Measure.IsRow isUnitLetter unit)
    (hmark : StopsBefore (fun c => c == 'e' || c == 'E') unit) (hdegree : ¬"degree".toList <+: unit)
    (hgap : IsGap gap) (hc : isSign c = true) (h : Imitates (unit ++ (gap ++ c :: s)) t) :
    value? (number ++ (gap ++ t)) = none := by
  rw [Option.eq_none_iff_forall_ne_some]
  intro y hy
  obtain ⟨e, he⟩ := derives_of_value? hy
  have hdegrees {word : Text} (hword : word ∈ degreeWords) : ¬word <+: t.filter isKept :=
    not_degrees hunit.2 hdegree hgap hc h hword
  obtain ⟨a, u, rfl⟩ := List.exists_cons_of_ne_nil hunit.1
  have ha := hunit.2 a List.mem_cons_self
  rw [Text.stopsBefore_cons] at hmark
  obtain ⟨b, r, rfl, hb⟩ := h.head
  -- Whatever stands behind the number begins with the unit's letter or with a parenthesis.
  have hstart {d : Char} (hd : d = a ∨ d = '(') : isNumberChar d = false ∧ mayFollow d = false ∧
      isDigit d = false ∧ isKept d = true ∧ (d == 'e' || d == 'E') = false := by
    rcases hd with rfl | rfl
    · obtain ⟨hnumber, hfollow⟩ := not_number_of_isUnitLetter ha
      exact ⟨hnumber, hfollow, isDigit_of_isTargetChar (Measure.isTargetChar_of_isUnitLetter ha),
        isKept_of_isUnitLetter ha, hmark⟩
    · exact ⟨rfl, rfl, by decide, by decide, rfl⟩
  obtain ⟨hbnumber, -, hbdigit, hbkept, -⟩ := hstart hb
  have hfilter := filter_isKept_gap (s := r) (fun c hc => isKept_of_isNumberChar (hnumber c hc))
    hgap hbkept
  have hprepare : prepare (number ++ (gap ++ b :: r)) =
      Expression.replaceDegrees (number ++ b :: r.filter isKept).length
        (number ++ b :: r.filter isKept) := by
    rw [← hfilter]
    rfl
  rw [List.filter_cons_of_pos hbkept] at hdegrees
  obtain ⟨v, hv, hgrouped⟩ := (Expression.grouped_replaceDegrees
    (number ++ b :: r.filter isKept).length (number ++ b :: r.filter isKept)).of_append
    fun w hw _ piece inside after hpiece =>
      no_angle hnumber hbnumber hbdigit (fun word hword => hdegrees hword) hw hpiece
  obtain ⟨d, v, rfl, hd⟩ : ∃ d z, v = d :: z ∧ (d = a ∨ d = '(') := by
    rcases hgrouped.head? with hsame | hopening
    · obtain ⟨z, rfl⟩ := List.head?_eq_some_iff.mp hsame
      exact ⟨b, z, rfl, hb⟩
    · obtain ⟨z, rfl⟩ := List.head?_eq_some_iff.mp hopening
      exact ⟨'(', z, rfl, .inr rfl⟩
  obtain ⟨hdnumber, hdfollow, -, -, hdmark⟩ := hstart hd
  rw [hprepare, hv] at he
  rcases he.behind_number hne hnumber (Text.stopsBefore_cons.mpr hdnumber)
    (fun _ _ _ => Expression.not_exponent (Text.stopsBefore_cons.mpr hdmark)) with
    hend | ⟨_, ⟨⟩, hfollow⟩
  · cases hend
  · rw [hdfollow] at hfollow
    cases hfollow

end Refused

/-! ## The rule for arithmetic -/

theorem isNumberChar_of_isArithmeticChar (h : isDigit c = true ∨ c = '.')
    (hc : isArithmeticChar c = true) : Expression.isNumberChar c = true := by
  rcases h with hdigit | rfl
  · have hletter := Measure.not_letter_of_isDigit hdigit
    have hblank := Text.isBlank_of_isDigit hdigit
    have hsign : "+-*/^().".toList.contains c = false := by
      by_contra hmem
      rw [Bool.not_eq_false, List.contains_iff_mem] at hmem
      have hall : "+-*/^().".toList.all (fun c => !isDigit c) = true := by decide
      have hnot := List.all_eq_true.mp hall c hmem
      rw [hdigit] at hnot
      cases hnot
    simp only [isArithmeticChar, hletter, hblank, hsign, Bool.or_false] at hc
    rw [Expression.isNumberChar, Bool.or_eq_true]
    exact .inl hc
  · rfl

theorem answerArithmetic_sumLine (hgap : IsGap gap) {d : Dimension}
    (hknown : (d.find? x.first.unit).isSome = true) :
    answerArithmetic (sumLine x gap target) = .pass := by
  rw [answerArithmetic]
  split
  next hchars =>
    rw [Bool.and_eq_true, List.all_eq_true] at hchars
    obtain ⟨c, s, hc, hline⟩ := exists_sumLine x gap target
    obtain ⟨hmark, hdegree⟩ := Measure.start_of_find? x.first.wellFormed.unit.2 hknown
    rw [hline] at hchars ⊢
    have hnumber : ∀ c ∈ Measure.decimalText x.first.number, Expression.isNumberChar c = true :=
      fun c hc => isNumberChar_of_isArithmeticChar (x.first.digit_or_point c hc)
        (hchars.1 c (List.mem_append_left _ hc))
    have hne : Measure.decimalText x.first.number ≠ [] := by
      obtain ⟨d, t, ht, -⟩ := x.first.exists_head
      exact ht ▸ List.cons_ne_nil d t
    have hrun : ∀ c ∈ Measure.decimalText x.first.number ++ gap, Text.isLetterAnyCase c = false := by
      refine List.forall_mem_append.mpr ⟨fun c hc => ?_, fun c hc => ?_⟩
      · rcases x.first.digit_or_point c hc with hdigit | rfl
        · exact isLetterAnyCase_of_isDigit hdigit
        · decide
      · rw [hgap.eq_space c hc]
        decide
    have hbehind : x.first.unit ++ (gap ++ c :: s) ≠ [] :=
      List.append_ne_nil_of_left_ne_nil x.first.letters.1 _
    obtain ⟨u, hu, himitates⟩ := exists_replacePiWords hrun hbehind
    have hvalue := value?_eq_none hne hnumber x.first.letters hmark hdegree hgap hc himitates
    simp only [← List.append_assoc] at hu hvalue ⊢
    simp only [hu, shownValue, hvalue]
  · rfl

end Lines

end DeskCalc.Query
