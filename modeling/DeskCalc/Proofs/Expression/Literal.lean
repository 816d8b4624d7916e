import DeskCalc.Proofs.Expression.Grammar
import DeskCalc.Proofs.Number.Numeral
import DeskCalc.Proofs.Text.Alphabet

/-!
# Reading literals

Reading a number gives the literal that stands at the beginning of a text, and fails exactly where
none stands.
-/

namespace DeskCalc.Expression

open Text (StopsBefore takeWhile_of_stops takeWhile_run dropWhile_run stopsBefore_dropWhile)

/-! ## Digits of the basic alphabet -/

theorem isDigit_of_basic {c : Char} (h : c.isDigit = true) : Text.isDigit c = true := by
  have hsmall : c.toNat < 128 := by
    have hbounds := Text.basicDigit_iff.mp h
    omega
  simp [Text.isDigit, Text.digitValue?, hsmall, h]

theorem AreDigits.textual {s : Text} (h : AreDigits s) : ∀ c ∈ s, Text.isDigit c = true :=
  fun c hc => isDigit_of_basic (h c hc)

theorem isNumberChar_of_isDigit {c : Char} (h : c.isDigit = true) : isNumberChar c = true := by
  simp [isNumberChar, h]

theorem eq_point_of_isNumberChar {c : Char} (h : isNumberChar c = true) (hdigit : c.isDigit = false) :
    c = '.' := by
  simpa [isNumberChar, hdigit] using h

theorem isLetter_of_isNumberChar {c : Char} (h : isNumberChar c = true) :
    Text.isLetter c = false := by
  by_cases hdigit : c.isDigit = true
  · have hbounds := Text.basicDigit_iff.mp hdigit
    rw [Bool.eq_false_iff, Ne, Text.isLetter_iff]
    omega
  · obtain rfl := eq_point_of_isNumberChar h (by simpa using hdigit)
    rfl

/-- A mantissa consists of the characters of numbers. -/
theorem Mantissa.isNumberChar {whole fraction body : Text} (h : Mantissa whole fraction body) :
    ∀ c ∈ body, isNumberChar c = true := by
  cases h with
  | whole _ hwhole => exact fun c hc => isNumberChar_of_isDigit (hwhole c hc)
  | pointed _ hwhole hfraction =>
    intro c hc
    rcases List.mem_append.mp hc with hc | hc
    · exact isNumberChar_of_isDigit (hwhole c hc)
    · rcases List.mem_cons.mp hc with rfl | hc
      · rfl
      · exact isNumberChar_of_isDigit (hfraction c hc)

/-! ## Exponents -/

theorem Exponent.head {power : Int} {s : Text} (h : Exponent power s) :
    ∃ c rest, s = c :: rest ∧ (c = 'e' ∨ c = 'E') := by
  cases h with
  | bare hc _ _ => exact ⟨_, _, rfl, hc⟩
  | plus hc _ _ => exact ⟨_, _, rfl, hc⟩
  | minus hc _ _ => exact ⟨_, _, rfl, hc⟩

/-- What begins with an exponent does not begin with a digit or a point. -/
theorem Exponent.stops {power : Int} {s : Text} (h : Exponent power s) (rest : Text) :
    StopsBefore Expression.isNumberChar (s ++ rest) ∧ StopsBefore Text.isDigit (s ++ rest) := by
  obtain ⟨c, t, rfl, rfl | rfl⟩ := h.head
  · exact ⟨rfl, rfl⟩
  · exact ⟨rfl, rfl⟩

/-- Whether a character is a sign. -/
def isSign (c : Char) : Bool :=
  c == '+' || c == '-'

theorem isSign_of_isDigit {c : Char} (h : c.isDigit = true) : isSign c = false := by
  have hplus : c ≠ '+' := by rintro rfl; simp at h
  have hminus : c ≠ '-' := by rintro rfl; simp at h
  simp [isSign, hplus, hminus]

theorem stopsBefore_isSign {digits : Text} (hne : digits ≠ []) (hdigits : AreDigits digits)
    (rest : Text) : StopsBefore isSign (digits ++ rest) := by
  cases digits with
  | nil => exact absurd rfl hne
  | cons d ds => exact isSign_of_isDigit (hdigits d List.mem_cons_self)

theorem exponentText_unsigned {c : Char} {s : Text} (hc : c = 'e' ∨ c = 'E')
    (hs : StopsBefore isSign s) : exponentText (c :: s) =
      if s.takeWhile Char.isDigit = [] then [] else c :: s.takeWhile Char.isDigit := by
  have htake : s.takeWhile (fun d => d == '+' || d == '-') = [] := takeWhile_of_stops hs
  simp only [exponentText, if_pos hc, htake, List.take_nil, List.length_nil, List.drop_zero]
  cases s.takeWhile Char.isDigit <;> simp

theorem exponentText_signed {c d : Char} {s : Text} (hc : c = 'e' ∨ c = 'E')
    (hd : isSign d = true) : exponentText (c :: d :: s) =
      if s.takeWhile Char.isDigit = [] then [] else c :: d :: s.takeWhile Char.isDigit := by
  have hd' : (d == '+' || d == '-') = true := hd
  simp only [exponentText, if_pos hc, List.takeWhile_cons, hd', if_true, List.take_succ_cons,
    List.take_zero, List.length_singleton, List.drop_succ_cons, List.drop_zero]
  cases s.takeWhile Char.isDigit <;> simp

/-- An exponent is found at the beginning of a text. -/
theorem exponentText_append {power : Int} {s rest : Text} (h : Exponent power s)
    (hrest : StopsBefore Char.isDigit rest) : exponentText (s ++ rest) = s := by
  cases h with
  | bare hc hne hdigits =>
    rw [List.cons_append, exponentText_unsigned hc (stopsBefore_isSign hne hdigits rest),
      takeWhile_run hdigits hrest, if_neg hne]
  | plus hc hne hdigits =>
    rw [List.cons_append, List.cons_append, exponentText_signed hc rfl,
      takeWhile_run hdigits hrest, if_neg hne]
  | minus hc hne hdigits =>
    rw [List.cons_append, List.cons_append, exponentText_signed hc rfl,
      takeWhile_run hdigits hrest, if_neg hne]

/-- What is found at the beginning of a text, if anything, is an exponent. -/
theorem exponent_of_exponentText {s : Text} (h : exponentText s ≠ []) :
    ∃ power rest, Exponent power (exponentText s) ∧ s = exponentText s ++ rest ∧
      StopsBefore Char.isDigit rest := by
  have hdigits (t : Text) : AreDigits (t.takeWhile Char.isDigit) := fun d hd => List.mem_takeWhile_imp hd
  have hsplit (t : Text) : t = t.takeWhile Char.isDigit ++ t.dropWhile Char.isDigit :=
    List.takeWhile_append_dropWhile.symm
  cases s with
  | nil => exact absurd rfl h
  | cons c s =>
    by_cases hc : c = 'e' ∨ c = 'E'
    · by_cases hs : StopsBefore isSign s
      · rw [exponentText_unsigned hc hs] at h ⊢
        have hne : s.takeWhile Char.isDigit ≠ [] := fun hnil => h (if_pos hnil)
        rw [if_neg hne]
        exact ⟨_, _, .bare hc hne (hdigits s), congrArg (c :: ·) (hsplit s),
          stopsBefore_dropWhile _ s⟩
      · cases s with
        | nil => exact absurd rfl hs
        | cons d s =>
          have hd : isSign d = true := by simpa [StopsBefore] using hs
          rw [exponentText_signed hc hd] at h ⊢
          have hne : s.takeWhile Char.isDigit ≠ [] := fun hnil => h (if_pos hnil)
          rw [if_neg hne]
          have htext := congrArg (c :: d :: ·) (hsplit s)
          have hd' : d = '+' ∨ d = '-' := by simpa [isSign] using hd
          rcases hd' with rfl | rfl
          · exact ⟨_, _, .plus hc hne (hdigits s), htext, stopsBefore_dropWhile _ s⟩
          · exact ⟨_, _, .minus hc hne (hdigits s), htext, stopsBefore_dropWhile _ s⟩
    · exact absurd (by simp [exponentText, hc]) h

/-- An exponent that stands at the beginning of a text is found, though it may be longer. -/
theorem exponentText_ne_nil {power : Int} {s rest : Text} (h : Exponent power s) :
    exponentText (s ++ rest) ≠ [] := by
  have hne {digits : Text} (hne : digits ≠ []) (hdigits : AreDigits digits) :
      (digits ++ rest).takeWhile Char.isDigit ≠ [] := by
    rw [List.takeWhile_append_of_pos hdigits]
    exact List.append_ne_nil_of_left_ne_nil hne _
  cases h with
  | bare hc hnil hdigits =>
    rw [List.cons_append, exponentText_unsigned hc (stopsBefore_isSign hnil hdigits rest),
      if_neg (hne hnil hdigits)]
    exact List.cons_ne_nil _ _
  | plus hc hnil hdigits =>
    rw [List.cons_append, List.cons_append, exponentText_signed hc rfl, if_neg (hne hnil hdigits)]
    exact List.cons_ne_nil _ _
  | minus hc hnil hdigits =>
    rw [List.cons_append, List.cons_append, exponentText_signed hc rfl, if_neg (hne hnil hdigits)]
    exact List.cons_ne_nil _ _

/-- An exponent is read up to what cannot continue it. -/
theorem Exponent.read_append {power : Int} {s rest : Text} (h : Exponent power s)
    (hrest : StopsBefore Text.isDigit rest) : Number.readExponent (s ++ rest) = (power, rest) := by
  have hread {digits : Text} (hdigits : AreDigits digits) :
      (digits ++ rest).takeWhile Text.isDigit = digits ∧
        (digits ++ rest).dropWhile Text.isDigit = rest :=
    ⟨takeWhile_run hdigits.textual hrest, dropWhile_run hdigits.textual hrest⟩
  have hmark {c : Char} (hc : c = 'e' ∨ c = 'E') : (c == 'e' || c == 'E') = true := by simpa using hc
  cases h with
  | @bare c digits hc hne hdigits =>
    obtain ⟨d, ds, rfl⟩ := List.exists_cons_of_ne_nil hne
    have hd : isSign d = false := isSign_of_isDigit (hdigits d List.mem_cons_self)
    have hsign : Number.readSign (d :: ds ++ rest) = (false, d :: ds ++ rest) := by
      have hplus : d ≠ '+' := by rintro rfl; simp [isSign] at hd
      have hminus : d ≠ '-' := by rintro rfl; simp [isSign] at hd
      simp [Number.readSign, hplus, hminus]
    rw [List.cons_append]
    simp only [Number.readExponent, hmark hc, if_true, hsign, (hread hdigits).1,
      (hread hdigits).2, Bool.false_eq_true, if_false]
  | @plus c digits hc hne hdigits =>
    obtain ⟨d, ds, rfl⟩ := List.exists_cons_of_ne_nil hne
    rw [List.cons_append, List.cons_append]
    simp only [Number.readExponent, hmark hc, if_true, Number.readSign, (hread hdigits).1,
      (hread hdigits).2, Bool.false_eq_true, if_false]
  | @minus c digits hc hne hdigits =>
    obtain ⟨d, ds, rfl⟩ := List.exists_cons_of_ne_nil hne
    rw [List.cons_append, List.cons_append]
    simp only [Number.readExponent, hmark hc, if_true, Number.readSign, (hread hdigits).1,
      (hread hdigits).2]

theorem Exponent.read {power : Int} {s : Text} (h : Exponent power s) :
    Number.readExponent s = (power, []) := by
  have hread := h.read_append (Text.stopsBefore_nil _)
  rwa [List.append_nil] at hread

/-! ## Numbers -/

/-- What an exponent, or nothing, makes of a mantissa in front of it. -/
theorem Mantissa.read {whole fraction body tail : Text} (h : Mantissa whole fraction body)
    (htail : StopsBefore Text.isDigit tail) (hpoint : StopsBefore Expression.isNumberChar tail) :
    Number.readNumeral? (body ++ tail) =
      some (⟨whole, fraction, (Number.readExponent tail).1⟩, (Number.readExponent tail).2) := by
  cases h with
  | whole hne hwhole =>
    refine Number.readNumeral?_whole hwhole.textual hne htail ?_
    cases tail with
    | nil => rfl
    | cons c tail =>
      have hc := Text.stopsBefore_cons.mp hpoint
      rw [Text.stopsBefore_cons]
      exact (Bool.or_eq_false_iff.mp hc).2
  | pointed hne hwhole hfraction =>
    rw [List.append_assoc, List.cons_append]
    exact Number.readNumeral?_pointed hwhole.textual hfraction.textual hne htail

/-- Digits and points with an exponent, or nothing, behind them are a numeral only if they are a
mantissa. -/
theorem mantissa_of_read {body tail : Text} {power : Int} {n : Number.Numeral}
    (hbody : ∀ c ∈ body, isNumberChar c = true) (htail : StopsBefore Text.isDigit tail)
    (hpoint : StopsBefore isNumberChar tail) (hpower : Number.readExponent tail = (power, []))
    (hread : Number.readNumeral? (body ++ tail) = some (n, [])) :
    Mantissa n.whole n.fraction body ∧ n.exponent = power := by
  have hpoint' : StopsBefore (· == '.') tail := by
    cases tail with
    | nil => rfl
    | cons c tail => exact (Bool.or_eq_false_iff.mp (Text.stopsBefore_cons.mp hpoint)).2
  obtain ⟨whole, rest, rfl, hwhole, hstop⟩ := Text.exists_run Char.isDigit body
  cases rest with
  | nil =>
    rw [List.append_nil] at hread ⊢
    by_cases hne : whole = []
    · subst hne
      rw [List.nil_append, Number.readNumeral?_none htail hpoint'] at hread
      cases hread
    · rw [Number.readNumeral?_whole (AreDigits.textual hwhole) hne htail hpoint', hpower] at hread
      cases hread
      exact ⟨.whole hne hwhole, rfl⟩
  | cons c rest =>
    obtain rfl : c = '.' :=
      eq_point_of_isNumberChar (hbody c (by simp)) (Text.stopsBefore_cons.mp hstop)
    obtain ⟨fraction, after, rfl, hfraction, hafter⟩ := Text.exists_run Char.isDigit rest
    -- What is left of the body begins with a second point, if there is anything left.
    have hleft : after = [] ∨ ∃ t, after = '.' :: t := by
      cases after with
      | nil => exact .inl rfl
      | cons d t =>
        exact .inr ⟨t, by rw [eq_point_of_isNumberChar (hbody d (by simp))
          (Text.stopsBefore_cons.mp hafter)]⟩
    have hrest : StopsBefore Text.isDigit (after ++ tail) := by
      rcases hleft with rfl | ⟨t, rfl⟩
      · exact htail
      · rw [List.cons_append, Text.stopsBefore_cons]
        decide
    rw [List.append_assoc, List.cons_append, List.append_assoc] at hread
    by_cases hne : whole ≠ [] ∨ fraction ≠ []
    · rw [Number.readNumeral?_pointed (AreDigits.textual hwhole) (AreDigits.textual hfraction)
        hne hrest] at hread
      rcases hleft with rfl | ⟨t, rfl⟩
      · rw [List.nil_append, hpower] at hread
        cases hread
        rw [List.append_nil]
        exact ⟨.pointed hne hwhole hfraction, rfl⟩
      · have hdot : (Number.readExponent ('.' :: t ++ tail)).2 = '.' :: t ++ tail := rfl
        rw [hdot] at hread
        cases hread
    · simp only [not_or, ne_eq, not_not] at hne
      obtain ⟨rfl, rfl⟩ := hne
      rw [List.nil_append, List.nil_append, Number.readNumeral?_point hrest] at hread
      cases hread

/-- A literal begins with a digit or a point. -/
theorem Literal.head {n : Number.Numeral} {s rest : Text} (h : Literal n s rest) :
    ∃ c t, s = c :: t ∧ isNumberChar c = true := by
  have hbody {whole fraction body : Text} (hbody : Mantissa whole fraction body) (after : Text) :
      ∃ c t, body ++ after = c :: t ∧ Expression.isNumberChar c = true := by
    obtain ⟨c, t, rfl⟩ := List.exists_cons_of_ne_nil hbody.ne_nil
    exact ⟨c, t ++ after, rfl, hbody.isNumberChar c List.mem_cons_self⟩
  cases h with
  | plain hmantissa _ _ => exact hbody hmantissa _
  | scientific hmantissa _ _ => exact hbody hmantissa _

/-- A literal is read as the number that it denotes. -/
theorem Literal.read {n : Number.Numeral} {s rest : Text} (h : Literal n s rest) :
    readNumber s = .ok (n.value, rest) := by
  cases h with
  | @plain whole fraction body _ hbody hstop hnone =>
    have hexponent : exponentText rest = [] := by
      by_contra hne
      obtain ⟨power, after, hwritten, hsplit, -⟩ := exponent_of_exponentText hne
      exact hnone power _ after hwritten hsplit
    have hread := hbody.read (Text.stopsBefore_nil _) (Text.stopsBefore_nil _)
    rw [List.append_nil] at hread
    simp only [readNumber, takeWhile_run hbody.isNumberChar hstop,
      dropWhile_run hbody.isNumberChar hstop, hexponent, List.append_nil, hread]
    simp [Number.readExponent]
  | @scientific whole fraction body written _ power hbody hwritten hstop =>
    obtain ⟨hafter, -⟩ := hwritten.stops rest
    obtain ⟨hpoint, htail⟩ := hwritten.stops []
    rw [List.append_nil] at hpoint htail
    simp only [readNumber, takeWhile_run hbody.isNumberChar hafter,
      dropWhile_run hbody.isNumberChar hafter, exponentText_append hwritten hstop,
      hbody.read htail hpoint, hwritten.read]
    simp [← List.append_assoc]

/-- What is read as a number is a literal, and its value is what is read. -/
theorem literal_of_readNumber {s rest : Text} {x : Float} (h : readNumber s = .ok (x, rest)) :
    ∃ n, Literal n s rest ∧ n.value = x := by
  obtain ⟨body, after, rfl, hbody, hstop⟩ := Text.exists_run isNumberChar s
  simp only [readNumber, takeWhile_run hbody hstop, dropWhile_run hbody hstop] at h
  split at h
  next n hread =>
    obtain ⟨whole, fraction, exponent⟩ := n
    cases h
    by_cases hnone : exponentText after = []
    · rw [hnone] at hread ⊢
      obtain ⟨hmantissa, rfl⟩ := mantissa_of_read hbody (Text.stopsBefore_nil _)
        (Text.stopsBefore_nil _) rfl hread
      refine ⟨_, ?_, rfl⟩
      rw [List.append_nil, List.drop_left]
      refine .plain hmantissa hstop fun power written t hwritten hsplit => ?_
      rw [hsplit] at hnone
      exact exponentText_ne_nil hwritten hnone
    · obtain ⟨power, rest, hwritten, hsplit, hrest⟩ := exponent_of_exponentText hnone
      obtain ⟨hpoint, htail⟩ := hwritten.stops []
      rw [List.append_nil] at hpoint htail
      obtain ⟨hmantissa, rfl⟩ := mantissa_of_read hbody htail hpoint hwritten.read hread
      refine ⟨_, ?_, rfl⟩
      have hall : body ++ after = (body ++ exponentText after) ++ rest := by
        rw [List.append_assoc, ← hsplit]
      rw [hall, List.drop_left, List.append_assoc]
      exact .scientific hmantissa hwritten hrest
  next => cases h

/-- Where no number is read, the form of the text is at fault. -/
theorem isFormal_of_readNumber {s : Text} {err : Error} (h : readNumber s = .error err) :
    err.isFormal = true := by
  simp only [readNumber] at h
  split at h
  · cases h
  · cases h
    rfl

end DeskCalc.Expression
