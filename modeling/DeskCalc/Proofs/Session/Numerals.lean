import DeskCalc.Proofs.Expression.Zeros
import DeskCalc.Proofs.Query.Numerals
import DeskCalc.Session.Submit

/-!
# Numerals taken from answers

A session takes the number of an answer for its last result and for a variable.  From the text of a
number in another base it takes that number if it is an integer.  The form in which it looks for
digits of the base has no point, so of any other number it takes the zero in front of the mark.

The main statement is `takes_radix_text`.
-/

namespace DeskCalc.Query

open Expression (leadingNumber?_numberText plainZero plainZero_eq_nearestTo)
open Number (Radix digitsIn exactValue leadingNumber? numberText pointed signed wholePart)

/-! ## Numbers of answers -/

section AnswerValue

variable {r : Radix} {x : Float}

theorem answerValue_numberText (hx : x.isFinite = true) :
    Number.answerValue (numberText x) = .found (plainZero x) := by
  have hnumber := Number.isNumberText_numberText x
  have hanswer := @answerValue_of_numberText _ [] hnumber (.inl rfl)
  have hstrip := strip_eq_self fun c hc => isBlank_of_isTextChar (hnumber.chars c hc)
  rw [List.append_nil, hstrip] at hanswer
  rw [hanswer, leadingNumber?_numberText hx]
  rfl

/-- The longest number at the beginning of a marked text is its zero. -/
theorem leadingNumber?_marked (hr : r ≠ .decimal) (rest : Text) :
    leadingNumber? ('0' :: r.mark :: rest) = some 0 := by
  have hzero : Number.applySign false (Number.Numeral.value ⟨['0'], [], 0⟩) = 0 := by decide
  cases r with
  | decimal => exact absurd rfl hr
  | binary => rw [← hzero]; rfl
  | octal => rw [← hzero]; rfl
  | hex => rw [← hzero]; rfl

/-- The whole part of an integer with its sign is the integer. -/
theorem ofInt_wholePart (hx : x.isFinite = true) {n : ℤ} (hn : exactValue x = n) :
    Number.ofInt (if decide (exactValue x < 0) = true then -(wholePart x : ℤ) else wholePart x) =
      plainZero x := by
  obtain ⟨-, habs⟩ := Number.abs_of_finite hx
  have hwhole : (wholePart x : ℚ) = |exactValue x| := by
    have hdvd := exists_int_iff.mp ⟨n, hn⟩
    rw [Number.abs_exactValue, eq_div_iff (by exact_mod_cast (Number.magnitude_den_pos x).ne')]
    exact_mod_cast Nat.div_mul_cancel (Nat.dvd_of_mod_eq_zero hdvd)
  rw [plainZero_eq_nearestTo hx, Number.ofInt_eq]
  congr 1
  by_cases hneg : exactValue x < 0
  · rw [if_pos (decide_eq_true hneg), Int.cast_neg, Int.cast_natCast, hwhole, abs_of_neg hneg,
      neg_neg]
  · rw [if_neg (by rw [decide_eq_false hneg]; exact Bool.false_ne_true), Int.cast_natCast, hwhole,
      abs_of_nonneg (not_lt.mp hneg)]

theorem answerValue_of_int (hr : r ≠ .decimal) (hx : x.isFinite = true) {n : ℤ}
    (hn : exactValue x = n) : Number.answerValue (r.text x) = .found (plainZero x) := by
  have hempty : fractionOfDouble r.base x = [] :=
    Number.fractionDigits_eq_nil_iff.mpr (exists_int_iff.mp ⟨n, hn⟩)
  rw [radix_text_eq hr hx, hempty]
  exact (answerValue_wholeText hr _ (Number.wholePart_le hx)).trans
    (congrArg _ (ofInt_wholePart hx hn))

theorem answerValue_of_not_int (hr : r ≠ .decimal) (hx : x.isFinite = true)
    (hn : ¬∃ n : ℤ, exactValue x = n) : Number.answerValue (r.text x) = .found 0 := by
  have hnumeral := isNumeral_radix hr hx
  have htext := radix_text_eq hr hx
  have hne := mt (written_fraction_eq_nil_iff (r := r)).mp hn
  set whole := written r (digitsIn r.base (wholePart x))
  set fraction := written r (fractionOfDouble r.base x)
  have hpointed : pointed whole fraction = whole ++ '.' :: fraction := if_neg hne
  have hdigit {c : Char} (hc : c ∈ "0123456789ABCDEF".toList.take r.base) :
      c ≠ '-' ∧ Text.isBlank c = false := by
    have hall : ∀ c ∈ "0123456789ABCDEF".toList, c ≠ '-' ∧ Text.isBlank c = false :=
      List.forall_iff_forall_mem.mp (by decide)
    exact hall c (List.mem_of_mem_take hc)
  have hdigits {c : Char} (hc : c ∈ whole ++ fraction) := hdigit (hnumeral.digits c hc)
  obtain ⟨c, t, hwhole⟩ := List.exists_cons_of_ne_nil hnumeral.nonempty
  rw [htext, hpointed, answerValue_pointedText hr, leadingNumber?_marked hr]
  · rfl
  · exact ⟨c, t, hwhole, (hdigits (by rw [hwhole]; simp)).1⟩
  · intro d hd
    rcases List.mem_append.mp hd with hd | hd
    · exact (hdigits (List.mem_append_left _ hd)).2
    · rcases List.mem_cons.mp hd with rfl | hd
      · decide
      · exact (hdigits (List.mem_append_right _ hd)).2

end AnswerValue

end DeskCalc.Query

namespace DeskCalc.Session

open Expression (isFinite_plainZero plainZero plainZero_eq_nearestTo)
open Number (Radix exactValue)

/-! ## Last results and variables -/

/-- A session takes a number from an answer: for the last result, and for a variable to which the
answer is assigned. -/
structure Takes (answer : Text) (x : Float) : Prop where
  number : finiteAnswer answer = .ok (some x)
  concluded (s : Session) (line : String) :
    (s.concludeAnswer line answer).1.value? lastName = some (.float x)
  assigned (s : Session) (line name : String) :
    (s.assignAnswer line name answer).1.value? lastName = some (.float x) ∧
      (s.assignAnswer line name answer).1.value? name = some (.float x)

variable {answer : Text} {x y : Float}

theorem takes_of_answerValue (h : Number.answerValue answer = .found x) (hx : x.isFinite = true) :
    Takes answer x := by
  have hnumber : finiteAnswer answer = .ok (some x) := by
    rw [finiteAnswer, h]
    simp only [hx, if_true]
  refine ⟨hnumber, fun s line => ?_, fun s line name => ⟨?_, ?_⟩⟩
  · simp only [concludeAnswer, hnumber]
    exact (Json.lookup_setMember _).trans (if_pos rfl)
  · simp only [assignAnswer, hnumber]
    exact (Json.lookup_setMember _).trans (if_pos rfl)
  · simp only [assignAnswer, hnumber]
    refine (Json.lookup_setMember name).trans ?_
    split
    · rfl
    · exact (Json.lookup_setMember _).trans (if_pos rfl)

theorem Takes.unique (h : Takes answer x) (h' : Takes answer y) : x = y := by
  have hnumber := h.number.symm.trans h'.number
  cases hnumber
  rfl

/-- From the text of a finite double in a base a session takes the double itself if and only if the
base is ten or the double is an integer; otherwise it takes zero. -/
theorem takes_radix_text (r : Radix) (hx : x.isFinite = true) :
    (Takes (r.text x) (plainZero x) ↔ r = .decimal ∨ ∃ n : ℤ, exactValue x = n) ∧
      (¬(r = .decimal ∨ ∃ n : ℤ, exactValue x = n) → Takes (r.text x) 0) := by
  have hlost (h : ¬(r = .decimal ∨ ∃ n : ℤ, exactValue x = n)) : Takes (r.text x) 0 := by
    obtain ⟨hr, hn⟩ := not_or.mp h
    exact takes_of_answerValue (Query.answerValue_of_not_int hr hx hn) Number.isFinite_zero
  refine ⟨⟨fun h => ?_, fun h => ?_⟩, hlost⟩
  · by_contra hnot
    have hzero := h.unique (hlost hnot)
    rw [plainZero_eq_nearestTo hx] at hzero
    have hvalue := Number.exactValue_nearestTo hx
    rw [hzero, ← Number.nearestTo_zero, Number.exactValue_nearestTo_zero] at hvalue
    exact hnot (.inr ⟨0, by rw [← hvalue, Int.cast_zero]⟩)
  · refine takes_of_answerValue ?_ (isFinite_plainZero hx)
    by_cases hr : r = .decimal
    · have htext : r.text x = Number.numberText x := by
        rw [hr]
        rfl
      rw [htext]
      exact Query.answerValue_numberText hx
    · obtain ⟨n, hn⟩ := h.resolve_left hr
      exact Query.answerValue_of_int hr hx hn

/-- Minus thirty-one in octal, with its sign behind the mark. -/
theorem takes_radix_text_octal : (-31 : Float).isFinite = true ∧
    Radix.octal.text (-31) = "0o-37".toList ∧ Takes (Radix.octal.text (-31)) (-31) := by
  have hfinite : (-31 : Float).isFinite = true := rfl
  have hplain : plainZero (-31) = -31 := rfl
  have hunpack : (-31 : Float).toModel.unpack =
      .finite .negative (31 * 2 ^ 48) (-48) (by decide) := rfl
  have hvalue : exactValue (-31) = (-31 : ℤ) := by
    rw [Number.exactValue_of_unpack hfinite hunpack]
    show ((-((31 * 2 ^ 48 : ℕ) : ℤ) : ℤ) : ℚ) * 2 ^ (-48 : ℤ) = (-31 : ℤ)
    norm_num
  have htakes := (takes_radix_text .octal hfinite).1.mpr (.inr ⟨-31, hvalue⟩)
  rw [hplain] at htakes
  exact ⟨hfinite, by decide +kernel, htakes⟩

/-- From the text of one and a half in hexadecimal a session takes zero. -/
theorem hexadecimal_fraction_lost : (1.5 : Float).isFinite = true ∧
    Radix.hex.text 1.5 = "0x1.8".toList ∧ plainZero 1.5 = 1.5 ∧
    ¬Takes (Radix.hex.text 1.5) 1.5 ∧ Takes (Radix.hex.text 1.5) 0 := by
  have htext : Radix.hex.text 1.5 = "0x1.8".toList := by decide +kernel
  have hzero : Takes "0x1.8".toList 0 :=
    takes_of_answerValue (by decide +kernel) Number.isFinite_zero
  rw [htext]
  refine ⟨rfl, rfl, rfl, fun h => ?_, hzero⟩
  exact absurd (h.unique hzero) (by decide)

end DeskCalc.Session
