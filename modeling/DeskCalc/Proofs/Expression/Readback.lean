import DeskCalc.Proofs.Expression.Reading
import DeskCalc.Proofs.Expression.Spelling
import DeskCalc.Proofs.Number.Texts
import DeskCalc.Text.Blank

/-!
# Numbers read back from their texts

The text of a number is read back as the number, up to the sign of zero, by the reader that takes
the longest number at the beginning of a text and by the evaluator.
-/

namespace DeskCalc.Expression

open Number (leadingNumber? numberText readExponent readNumeral?)
open Text (StopsBefore)

/-! ## Blanks -/

/-- Nothing follows, or a blank does. -/
def Spaced (s : Text) : Prop :=
  ∀ c ∈ s.head?, Text.isBlank c = true

theorem isNumberChar_of_isBlank {c : Char} (h : Text.isBlank c = true) :
    isNumberChar c = false := by
  by_contra hnumber
  rw [Bool.not_eq_false, isNumberChar, Bool.or_eq_true, beq_iff_eq] at hnumber
  rcases hnumber with hdigit | rfl
  · have hnot := Text.isDigit_of_isBlank h
    rw [isDigit_of_basic hdigit] at hnot
    cases hnot
  · cases h

theorem Spaced.stopsBefore {s : Text} (h : Spaced s) {p : Char → Bool}
    (hp : ∀ c, Text.isBlank c = true → p c = false) : StopsBefore p s := by
  cases s with
  | nil => rfl
  | cons c s => exact hp c (h c rfl)

theorem Spaced.readExponent {s : Text} (h : Spaced s) : Number.readExponent s = (0, s) := by
  cases s with
  | nil => rfl
  | cons c s =>
    have hmark : (c == 'e' || c == 'E') = false := by
      have hc := h c rfl
      rw [Bool.or_eq_false_iff, beq_eq_false_iff_ne, beq_eq_false_iff_ne]
      constructor <;> rintro rfl <;> cases hc
    rw [Number.readExponent, hmark]
    rfl

/-! ## The longest number -/

/-- A spelling is read up to a blank. -/
theorem Spelling.readNumeral? (n : Spelling) {rest : Text} (hrest : Spaced rest) :
    Number.readNumeral? (n.text ++ rest) = some (n.numeral, rest) := by
  have hmantissa := n.mantissa
  have hdigit := hrest.stopsBefore fun _ => Text.isDigit_of_isBlank
  have hpoint := hrest.stopsBefore fun _ => isNumberChar_of_isBlank
  rw [text, ← List.append_assoc, List.append_assoc]
  obtain ⟨whole, fraction?, _ | power⟩ := n
  · refine (hmantissa.read hdigit hpoint).trans ?_
    rw [hrest.readExponent]
    rfl
  · obtain ⟨hstop, hstop'⟩ := power.exponent.stops rest
    refine (hmantissa.read hstop' hstop).trans ?_
    rw [power.exponent.read_append hdigit]
    rfl

/-- A spelling begins with a digit. -/
theorem Spelling.head (n : Spelling) : ∃ c t, n.text = c :: t ∧ c.isDigit = true := by
  obtain ⟨c, t, hwhole⟩ := List.exists_cons_of_ne_nil n.whole.ne_nil
  refine ⟨c, t ++ (n.fractionText ++ n.powerText), ?_, ?_⟩
  · rw [text, hwhole, List.cons_append]
  · exact n.whole.areDigits c (by rw [hwhole]; exact List.mem_cons_self)

theorem leadingNumber?_spelling (negative : Bool) (n : Spelling) {rest : Text}
    (hrest : Spaced rest) :
    leadingNumber? (Number.signed negative n.text ++ rest) =
      some (Number.applySign negative n.numeral.value) := by
  obtain ⟨c, t, htext, hc⟩ := n.head
  have hbounds := Text.basicDigit_iff.mp hc
  have hread := n.readNumeral? hrest
  have hblank : Text.isBlank c = false := by
    by_contra hblank
    rw [Bool.not_eq_false] at hblank
    have hdigit := Text.isDigit_of_isBlank hblank
    rw [isDigit_of_basic hc] at hdigit
    cases hdigit
  have hname : "Infinity".toList.isPrefixOf (n.text ++ rest) = false := by
    have hletter : ('I' == c) = false := by
      rw [beq_eq_false_iff_ne]
      rintro rfl
      cases hc
    have hsplit : "Infinity".toList = 'I' :: "nfinity".toList := by decide
    rw [htext, hsplit, List.cons_append, List.isPrefixOf_cons_cons, hletter, Bool.false_and]
  have hstart : Text.stripLeft (Number.signed negative n.text ++ rest) =
      Number.signed negative n.text ++ rest := by
    cases negative with
    | true => rfl
    | false =>
      rw [htext]
      exact Text.dropWhile_of_stops (Text.stopsBefore_cons.mpr hblank)
  have hsign : Number.readSign (Number.signed negative n.text ++ rest) =
      (negative, n.text ++ rest) := by
    cases negative with
    | true => rfl
    | false =>
      have hplus : c ≠ '+' := by rintro rfl; cases hc
      have hminus : c ≠ '-' := by rintro rfl; cases hc
      rw [htext]
      simp [Number.readSign, Number.signed, hplus, hminus]
  simp only [leadingNumber?, hstart, hsign, hname, hread, Bool.false_eq_true, if_false,
    Option.map_some]

/-! ## Texts of numbers -/

theorem leadingNumber?_infinite {rest : Text} :
    leadingNumber? (numberText Number.infinity ++ rest) = some Number.infinity ∧
      leadingNumber? (numberText (-Number.infinity) ++ rest) = some (-Number.infinity) := by
  have htext : numberText Number.infinity = "Infinity".toList := by decide
  have htext' : numberText (-Number.infinity) = "-Infinity".toList := by decide
  rw [htext, htext']
  exact ⟨rfl, rfl⟩

theorem plainZero_infinite : plainZero Number.infinity = Number.infinity ∧
    plainZero (-Number.infinity) = -Number.infinity := by
  have hpositive : (Number.infinity == 0) = false := by decide
  have hnegative : (-Number.infinity == 0) = false := by decide
  rw [plainZero, plainZero, hpositive, hnegative]
  exact ⟨rfl, rfl⟩

/-- The text of a finite number derives the tree of a number, under a minus if it has one. -/
theorem exists_denotes (table : FunctionTable) {x : Float} (hx : x.isFinite = true) :
    ∃ e, Denotes table (numberText x) e ∧ e.value? = some (plainZero x) := by
  obtain ⟨n, htext, hvalue⟩ := exists_spelling hx
  have hderives : Derives table .factor (.number n.numeral) n.text [] := by
    have hliteral := n.literal (Text.stopsBefore_nil _)
    rw [List.append_nil] at hliteral
    exact .number hliteral
  rw [htext, ← hvalue]
  cases decide (x < 0) with
  | true =>
    have hdepth : (Tree.minus (.number n.numeral)).depth ≤ nestingRoom :=
      (by decide : 1 ≤ nestingRoom)
    exact ⟨_, ⟨.operand (.operand (.operand (.minus hderives))), hdepth⟩, rfl⟩
  | false =>
    exact ⟨_, ⟨.operand (.operand (.operand hderives)), Nat.zero_le _⟩, rfl⟩

/-- The text of a number is read back as the number, up to the sign of zero: by the reader of the
longest number whatever follows a blank behind it, and by the evaluator as a whole if the number is
finite. -/
theorem numberText_readback {x : Float} (hx : x.isNaN = false) :
    (∀ rest, Spaced rest → leadingNumber? (numberText x ++ rest) = some (plainZero x)) ∧
      (x.isFinite = true → ∀ table, valueOf table (numberText x) = .ok (plainZero x)) := by
  constructor
  · intro rest hrest
    rcases Number.finite_or_infinite hx with hfinite | rfl | rfl
    · obtain ⟨n, htext, hvalue⟩ := exists_spelling hfinite
      rw [htext, leadingNumber?_spelling _ n hrest, hvalue]
    · rw [leadingNumber?_infinite.1, plainZero_infinite.1]
    · rw [leadingNumber?_infinite.2, plainZero_infinite.2]
  · intro hfinite table
    obtain ⟨e, he, hvalue⟩ := exists_denotes table hfinite
    rw [valueOf_of_denotes he, hvalue]
    rfl

/-- A small negative number, which is written with an exponent, in front of a unit. -/
theorem numberText_readback_small : (-1.5e-7 : Float).isNaN = false ∧ Spaced " km".toList ∧
    leadingNumber? (numberText (-1.5e-7) ++ " km".toList) = some (-1.5e-7) ∧
    valueOf standardTable (numberText (-1.5e-7)) = .ok (-1.5e-7) := by
  have hnumber : (-1.5e-7 : Float).isNaN = false := rfl
  have hspaced : Spaced " km".toList := by
    rintro c hc
    cases hc
    rfl
  have hplain : plainZero (-1.5e-7) = -1.5e-7 := rfl
  obtain ⟨hleading, hvalue⟩ := numberText_readback hnumber
  rw [hplain] at hleading hvalue
  exact ⟨hnumber, hspaced, hleading _ hspaced, hvalue rfl _⟩

end DeskCalc.Expression
