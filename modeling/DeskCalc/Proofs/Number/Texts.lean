import DeskCalc.Number.Display
import DeskCalc.Proofs.Number.Digits
import DeskCalc.Proofs.Number.Doubles
import DeskCalc.Text.Half
import Mathlib.Data.List.TakeWhile

/-!
# The texts of numbers

However a number is written, its text consists of digits, signs, a point, the mark of an exponent
and the letters of the names of what is not finite, and it does not begin with the point.
-/

namespace DeskCalc.Number

/-- The characters of the texts of numbers. -/
def isTextChar (c : Char) : Bool :=
  c.isDigit || "-+.eNaInfity".toList.contains c

/-- The form that the texts of numbers share. -/
structure IsNumberText (s : Text) : Prop where
  head : ∃ c t, s = c :: t ∧ c ≠ '.'
  chars : ∀ c ∈ s, isTextChar c = true

theorem isTextChar_of_isDigit {c : Char} (h : c.isDigit = true) : isTextChar c = true := by
  simp [isTextChar, h]

namespace IsNumberText

theorem of_digits {s : Text} (hne : s ≠ []) (hdigits : ∀ c ∈ s, c.isDigit = true) :
    IsNumberText s where
  head := by
    obtain ⟨c, t, rfl⟩ := List.exists_cons_of_ne_nil hne
    refine ⟨c, t, rfl, ?_⟩
    rintro rfl
    cases hdigits _ List.mem_cons_self
  chars := fun c hc => isTextChar_of_isDigit (hdigits c hc)

theorem append {s t : Text} (h : IsNumberText s) (ht : ∀ c ∈ t, isTextChar c = true) :
    IsNumberText (s ++ t) where
  head := by
    obtain ⟨c, u, rfl, hc⟩ := h.head
    exact ⟨c, u ++ t, rfl, hc⟩
  chars := fun c hc => (List.mem_append.mp hc).elim (h.chars c) (ht c)

theorem signed {s : Text} (h : IsNumberText s) (negative : Bool) :
    IsNumberText (signed negative s) := by
  cases negative with
  | false => exact h
  | true =>
    refine ⟨⟨'-', s, rfl, by decide⟩, fun c hc => ?_⟩
    rcases List.mem_cons.mp hc with rfl | hc
    · rfl
    · exact h.chars c hc

theorem take {s : Text} (h : IsNumberText s) {n : Nat} (hn : 0 < n) : IsNumberText (s.take n) where
  head := by
    obtain ⟨c, t, rfl, hc⟩ := h.head
    obtain ⟨m, rfl⟩ : ∃ m, n = m + 1 := ⟨n - 1, by omega⟩
    exact ⟨c, t.take m, rfl, hc⟩
  chars := fun c hc => h.chars c (List.mem_of_mem_take hc)

theorem takeWhole {s : Text} (h : IsNumberText s) : IsNumberText (s.takeWhile (· ≠ '.')) where
  head := by
    obtain ⟨c, t, rfl, hc⟩ := h.head
    exact ⟨c, t.takeWhile (· ≠ '.'), by simp [hc], hc⟩
  chars := fun c hc => h.chars c ((List.takeWhile_prefix _).subset hc)

theorem mark_not_mem {s : Text} (h : IsNumberText s) : Text.mark ∉ s := by
  intro hmem
  have hchar := h.chars Text.mark hmem
  have hnot : isTextChar Text.mark = false := by decide
  rw [hnot] at hchar
  cases hchar

end IsNumberText

theorem isNumberText_natText (n : Nat) : IsNumberText (natText n) :=
  .of_digits (natText_ne_nil n) fun _ hc => isDigit_of_mem_natText hc

section Layouts

variable {digits : Text}

theorem isNumberText_scientific (hne : digits ≠ []) (hdigits : ∀ c ∈ digits, c.isDigit = true)
    (width : Nat) (power : Int) : IsNumberText (scientific width digits power) := by
  have hpoint : IsNumberText (pointAfterFirst digits) := by
    have hall := IsNumberText.of_digits hne hdigits
    rcases digits with _ | ⟨d, _ | ⟨e, ds⟩⟩
    · exact hall
    · exact hall
    · refine ⟨⟨d, '.' :: e :: ds, rfl, ?_⟩, fun c hc => ?_⟩
      · rintro rfl
        cases hdigits '.' List.mem_cons_self
      · rcases List.mem_cons.mp hc with rfl | hc
        · exact hall.chars c List.mem_cons_self
        · rcases List.mem_cons.mp hc with rfl | hc
          · rfl
          · exact hall.chars c (List.mem_cons_of_mem _ hc)
  rw [scientific, List.append_assoc]
  refine hpoint.append fun c hc => ?_
  simp only [List.cons_append, List.mem_cons, List.mem_append] at hc
  rcases hc with rfl | rfl | hc | hc
  · rfl
  · split <;> rfl
  · exact isTextChar_of_isDigit (isDigit_of_mem_zeros hc)
  · exact isTextChar_of_isDigit (isDigit_of_mem_natText hc)

theorem isNumberText_positional (hne : digits ≠ []) (hdigits : ∀ c ∈ digits, c.isDigit = true)
    (pointZero : Bool) (power : Int) : IsNumberText (positional pointZero digits power) := by
  have hall := IsNumberText.of_digits hne hdigits
  rw [positional]
  split
  · refine ⟨⟨'0', _, rfl, by decide⟩, fun c hc => ?_⟩
    simp only [List.cons_append, List.mem_cons, List.mem_append] at hc
    rcases hc with rfl | rfl | hc | hc
    · rfl
    · rfl
    · exact isTextChar_of_isDigit (isDigit_of_mem_zeros hc)
    · exact hall.chars c hc
  · simp only
    split
    · refine (hall.append fun c hc => isTextChar_of_isDigit (isDigit_of_mem_zeros hc)).append ?_
      cases pointZero <;> exact List.all_eq_true.mp (by decide)
    · refine (hall.take (Nat.succ_pos _)).append fun c hc => ?_
      rcases List.mem_cons.mp hc with rfl | hc
      · rfl
      · exact hall.chars c (List.mem_of_mem_drop hc)

end Layouts

/-- A layout writes numbers in this form if it names what is not finite so. -/
theorem isNumberText_layout {l : Layout} (hnan : IsNumberText l.nan)
    (hinfinity : IsNumberText l.infinity) (x : Float) : IsNumberText (l.text x) := by
  have hdecimal (d : Decimal) : IsNumberText (l.decimal d) := by
    have hne := natText_ne_nil d.digits
    have hdigits : ∀ c ∈ natText d.digits, c.isDigit = true := fun _ hc => isDigit_of_mem_natText hc
    simp only [Layout.decimal]
    split
    · exact isNumberText_positional hne hdigits _ _
    · exact isNumberText_scientific hne hdigits _ _
  rw [Layout.text]
  split
  · exact hnan
  · split
    · exact hinfinity.signed _
    · split
      · exact (isNumberText_positional (by simp) (List.all_eq_true.mp (by decide)) _ _).signed _
      · exact (hdecimal _).signed _

theorem isNumberText_numberText (x : Float) : IsNumberText (numberText x) :=
  isNumberText_layout ⟨⟨'N', ['a', 'N'], rfl, by decide⟩, List.all_eq_true.mp (by decide)⟩
    ⟨⟨'I', "nfinity".toList, rfl, by decide⟩, List.all_eq_true.mp (by decide)⟩ x

theorem isNumberText_withPlaces (k places : Nat) : IsNumberText (withPlaces k places) := by
  set padded := zeros (places + 1 - (natText k).length) ++ natText k with hpadded
  have hdigits : ∀ c ∈ padded, c.isDigit = true := by
    intro c hc
    rcases List.mem_append.mp hc with hc | hc
    · exact isDigit_of_mem_zeros hc
    · exact isDigit_of_mem_natText hc
  have hlength : places + 1 ≤ padded.length := by
    rw [hpadded, List.length_append, zeros, List.length_replicate]
    omega
  have hall : IsNumberText padded :=
    .of_digits (List.length_pos_iff.mp (by omega)) hdigits
  have hform : withPlaces k places = if places = 0 then padded else
      padded.take (padded.length - places) ++ '.' :: padded.drop (padded.length - places) := rfl
  rw [hform]
  split
  · exact hall
  · refine (hall.take (by omega)).append fun c hc => ?_
    rcases List.mem_cons.mp hc with rfl | hc
    · rfl
    · exact hall.chars c (List.mem_of_mem_drop hc)

theorem isNumberText_fixed (x : Float) (places : Nat) : IsNumberText (fixed x places) := by
  rw [fixed]
  split
  · exact isNumberText_numberText x
  · exact (isNumberText_withPlaces _ _).signed _

theorem isNumberText_significant (x : Float) (count : Nat) :
    IsNumberText (significant x count) := by
  rw [significant]
  split
  · exact isNumberText_numberText x
  · split
    · split
      · exact .of_digits (by simp) (List.all_eq_true.mp (by decide))
      · refine ⟨⟨'0', _, rfl, by decide⟩, fun c hc => ?_⟩
        simp only [List.mem_cons] at hc
        rcases hc with rfl | rfl | hc
        · rfl
        · rfl
        · exact isTextChar_of_isDigit (isDigit_of_mem_zeros hc)
    · simp only
      apply IsNumberText.signed
      have hne (k : Nat) := natText_ne_nil k
      have hdigits (k : Nat) : ∀ c ∈ natText k, c.isDigit = true := fun _ hc => isDigit_of_mem_natText hc
      split
      · exact isNumberText_scientific (hne _) (hdigits _) _ _
      · exact isNumberText_positional (hne _) (hdigits _) _ _

/-! ## Texts without noise -/

theorem IsNumberText.dropZeroFraction {s : Text} (h : IsNumberText s) :
    IsNumberText (dropZeroFraction s) := by
  rw [Number.dropZeroFraction]
  split
  · exact h.takeWhole
  · exact h

theorem trailingZeros_lt {s : Text} (h : s.any (· ≠ '0') = true) : trailingZeros s < s.length := by
  obtain ⟨c, hc, hne⟩ := List.any_eq_true.mp h
  rw [trailingZeros, ← @List.length_reverse _ s]
  refine lt_of_le_of_ne (List.takeWhile_prefix _).length_le fun heq => ?_
  have hall := (List.takeWhile_prefix (· == '0')).eq_of_length heq
  have hmem : c ∈ s.reverse.takeWhile (· == '0') := hall.symm ▸ List.mem_reverse.mpr hc
  have hzero := List.mem_takeWhile_imp hmem
  simp_all

theorem IsNumberText.trimFraction {s : Text} (h : IsNumberText s) : IsNumberText (trimFraction s) := by
  rw [Number.trimFraction]
  split
  next hfraction =>
    have hany := (Bool.and_eq_true_iff.mp hfraction).2
    have hlt := trailingZeros_lt hany
    have hle : (fractionOf s).length ≤ s.length := by
      rw [fractionOf, List.length_drop]
      exact (Nat.sub_le _ _).trans (List.dropWhile_suffix _).length_le
    exact h.take (by omega)
  · exact h.dropZeroFraction

theorem isNumberText_display (x : Float) : IsNumberText (display x) := by
  rw [display]
  split
  · exact isNumberText_numberText x
  · split
    · exact (isNumberText_fixed _ _).trimFraction
    · exact (isNumberText_fixed _ _).dropZeroFraction

theorem isNumberText_conversionText (x : Float) : IsNumberText (conversionText x) := by
  simp only [conversionText]
  apply IsNumberText.trimFraction
  split
  · exact isNumberText_significant x 15
  · split
    · exact isNumberText_fixed x 15
    · split
      · exact isNumberText_significant x 12
      · exact isNumberText_fixed x 12

/-! ## Equal numbers -/

/-- Doubles that are equal are written alike. -/
theorem numberText_congr {x y : Float} (hx : x.isFinite = true) (hy : y.isFinite = true)
    (h : (x == y) = true) : numberText x = numberText y := by
  have hzero {z : Float} (hz : z.isFinite = true) (h : (z == 0) = true) :
      numberText z = ['0'] := by
    simp only [numberText, Layout.text, isNaN_of_isFinite hz, isInf_of_isFinite hz,
      Bool.false_eq_true, if_false, if_pos h]
    rfl
  obtain rfl | ⟨hx0, hy0⟩ := eq_or_zero_of_beq hx hy h
  · rfl
  · rw [hzero hx hx0, hzero hy hy0]

end DeskCalc.Number
