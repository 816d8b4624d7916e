import DeskCalc.Text.Blank
import DeskCalc.Text.Digit
import DeskCalc.Text.Letter
import DeskCalc.Text.Lowercase

/-!
# The basic alphabet

The ranges in which the digits and letters of the basic alphabet lie, for all that tells its
characters apart by their numbers, the blanks among the digits of all scripts, and what becomes of a
text in lower case.
-/

namespace DeskCalc.Text

variable {c : Char}

theorem basicDigit_iff : c.isDigit = true ↔ 48 ≤ c.toNat ∧ c.toNat ≤ 57 :=
  Char.isDigit_iff_toNat

theorem isUpper_iff : c.isUpper = true ↔ 65 ≤ c.toNat ∧ c.toNat ≤ 90 :=
  decide_eq_true_iff

theorem isLower_iff : c.isLower = true ↔ 97 ≤ c.toNat ∧ c.toNat ≤ 122 :=
  (Bool.and_eq_true ..).to_iff.trans (and_congr decide_eq_true_iff decide_eq_true_iff)

theorem isAlpha_iff :
    c.isAlpha = true ↔ 65 ≤ c.toNat ∧ c.toNat ≤ 90 ∨ 97 ≤ c.toNat ∧ c.toNat ≤ 122 :=
  (Bool.or_eq_true ..).to_iff.trans (or_congr isUpper_iff isLower_iff)

theorem isAlphanum_iff :
    c.isAlphanum = true ↔ (65 ≤ c.toNat ∧ c.toNat ≤ 90 ∨ 97 ≤ c.toNat ∧ c.toNat ≤ 122) ∨
      48 ≤ c.toNat ∧ c.toNat ≤ 57 :=
  (Bool.or_eq_true ..).to_iff.trans (or_congr isAlpha_iff basicDigit_iff)

theorem isLetter_iff :
    isLetter c = true ↔ 65 ≤ c.toNat ∧ c.toNat ≤ 90 ∨ 97 ≤ c.toNat ∧ c.toNat ≤ 122 :=
  isAlpha_iff

/-! ## Digits and blanks -/

theorem exists_range_of_isBlank (h : isBlank c = true) :
    ∃ r ∈ blankRanges, r.1 ≤ c.toNat ∧ c.toNat ≤ r.2 := by
  obtain ⟨r, hr, hc⟩ := List.any_eq_true.mp h
  rw [Bool.and_eq_true, decide_eq_true_iff, decide_eq_true_iff] at hc
  exact ⟨r, hr, hc⟩

/-- No blank lies in a row of digits. -/
theorem isDigit_of_isBlank (h : isBlank c = true) : isDigit c = false := by
  obtain ⟨r, hr, hlow, hhigh⟩ := exists_range_of_isBlank h
  have hbasic : r.2 < 48 ∨ 57 < r.1 := by
    have hall : ∀ r ∈ blankRanges, r.2 < 48 ∨ 57 < r.1 := by decide
    exact hall r hr
  have hrows : ∀ z ∈ digitZeros, r.2 < z ∨ z + 10 ≤ r.1 := by
    have hall : ∀ r ∈ blankRanges, ∀ z ∈ digitZeros, r.2 < z ∨ z + 10 ≤ r.1 := by
      decide +kernel
    exact hall r hr
  rw [isDigit, digitValue?]
  split
  · have hnot : c.isDigit = false := by
      rw [Bool.eq_false_iff, ne_eq, basicDigit_iff]
      omega
    rw [hnot]
    rfl
  · rw [Option.isSome_map, Option.isSome_eq_false_iff, Option.isNone_iff_eq_none,
      List.find?_eq_none]
    intro z hz
    have hrow := hrows z hz
    rw [Bool.and_eq_true, decide_eq_true_iff, decide_eq_true_iff]
    omega

theorem isBlank_of_isDigit (h : isDigit c = true) : isBlank c = false := by
  cases hblank : isBlank c with
  | false => rfl
  | true =>
    rw [isDigit_of_isBlank hblank] at h
    cases h

/-! ## Lower case -/

theorem isLetter_of_toLower {c : Char} (h : isLetter c.toLower = true) : isLetter c = true := by
  by_cases hupper : c.isUpper = true
  · exact isLetter_iff.mpr (.inl (isUpper_iff.mp hupper))
  · have hsame : c.toLower = c := dif_neg (mt decide_eq_true hupper)
    rwa [hsame] at h

theorem lowerAfter_basic {before s : Text} (hs : ∀ c ∈ s, c.toNat < 128) :
    lowerAfter before s = s.map Char.toLower := by
  induction s generalizing before with
  | nil => rfl
  | cons c s ih =>
    obtain ⟨hc, hrest⟩ := List.forall_mem_cons.mp hs
    have hsigma : (c == 'Σ') = false := by
      rw [beq_eq_false_iff_ne]
      rintro rfl
      exact absurd hc (by decide)
    have hdotted : (c == 'İ') = false := by
      rw [beq_eq_false_iff_ne]
      rintro rfl
      exact absurd hc (by decide)
    rw [lowerAfter, hsigma, hdotted, ih hrest]
    simp [lowerChar, hc]

/-- In the basic alphabet, what stands before a letter does not matter for its lower case. -/
theorem lower_basic {s : Text} (hs : ∀ c ∈ s, c.toNat < 128) : lower s = s.map Char.toLower :=
  lowerAfter_basic hs

/-- Two characters apart, each character of a text is put in lower case by itself. -/
theorem mem_lowerAfter {before s : Text} (hc : c ∈ s) (hsigma : c ≠ 'Σ') (hdotted : c ≠ 'İ') :
    lowerChar c ∈ lowerAfter before s := by
  induction s generalizing before with
  | nil => cases hc
  | cons d s ih =>
    rw [lowerAfter]
    rcases List.mem_cons.mp hc with rfl | hc
    · simp [hsigma, hdotted]
    · exact List.mem_append_right _ (ih hc)

theorem lowerChar_of_isBlank (h : isBlank c = true) : lowerChar c = c := by
  have hall : (blankRanges.all fun r => (List.range (r.2 + 1 - r.1)).all fun n =>
      lowerChar (Char.ofNat (r.1 + n)) == Char.ofNat (r.1 + n)) = true := by
    rfl
  obtain ⟨r, hr, hrange⟩ := exists_range_of_isBlank h
  have hmem : c.toNat - r.1 ∈ List.range (r.2 + 1 - r.1) := List.mem_range.mpr (by omega)
  have hc := beq_iff_eq.mp (List.all_eq_true.mp (List.all_eq_true.mp hall r hr) _ hmem)
  rwa [Nat.add_sub_cancel' hrange.1, Char.ofNat_toNat] at hc

/-- The blanks of a text remain in lower case. -/
theorem mem_lower_of_isBlank {s : Text} (hblank : isBlank c = true) (hc : c ∈ s) : c ∈ lower s := by
  have hne {d : Char} (hd : isBlank d = false) : c ≠ d := by
    rintro rfl
    rw [hblank] at hd
    cases hd
  have hmem := @mem_lowerAfter c [] s hc (hne (by decide)) (hne (by decide))
  rwa [lowerChar_of_isBlank hblank] at hmem

end DeskCalc.Text
