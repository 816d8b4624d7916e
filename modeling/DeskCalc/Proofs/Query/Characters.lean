import DeskCalc.Proofs.Text.Alphabet
import DeskCalc.Query.Convert
import Mathlib.Data.List.TakeWhile
import Mathlib.Tactic.ByContra

/-!
# The characters of quantities

Units are written with letters in either case, raised digits, hyphens and slashes; numbers with
digits, points, slashes and blanks.  Blanks and parentheses say nothing about which quantities a
text names.
-/

namespace DeskCalc.Query

open Text (isBlank isDigit)

/-! ## Characters -/

/-- The characters that a target can be written with. -/
def targetChars : Text :=
  "ABCDEFGHIJKLMNOPQRSTUVWXYZabcdefghijklmnopqrstuvwxyz-/²³µ".toList ++
    [0x17F, 0x212A, 0x130, 0x131, 0x3BC, 0x39C].map Char.ofNat

theorem letterKey_cases (c : Char) :
    c.toNat < 128 ∨ c ∈ targetChars ∨ Text.letterKey c = c := by
  by_cases hlow : c.toNat < 128
  · exact .inl hlow
  right
  have hmem {n : Nat} (hn : Char.ofNat n ∈ targetChars) (hc : c.toNat = n) : c ∈ targetChars := by
    rwa [← Char.ofNat_toNat c, hc]
  simp only [Text.letterKey, if_neg hlow]
  split
  next hc => exact .inl (hmem (by decide) hc)
  next hc => exact .inl (hmem (by decide) hc)
  next hc => exact .inl (hmem (by decide) hc)
  next hc => exact .inl (hmem (by decide) hc)
  next hc => exact .inl (hmem (by decide) hc)
  next hc => exact .inl (hmem (by decide) hc)
  · exact .inr rfl

/-- What holds of the basic alphabet is found by going through it. -/
theorem of_lt_128 {p : Char → Bool} (hall : (List.range 128).all (fun n => p (Char.ofNat n)) = true)
    {c : Char} (h : c.toNat < 128) : p c = true := by
  have hp := List.all_eq_true.mp hall c.toNat (List.mem_range.mpr h)
  rwa [Char.ofNat_toNat] at hp

theorem lt_128_of_isLetter {c : Char} (h : Text.isLetter c = true) : c.toNat < 128 := by
  have hranges := Text.isLetter_iff.mp h
  omega

theorem mem_targetChars {c : Char} (h : isTargetChar c = true) : c ∈ targetChars := by
  rcases letterKey_cases c with hlow | hmem | hkey
  · have hp := @of_lt_128 (fun c => !isTargetChar c || targetChars.contains c)
      (by decide +kernel) c hlow
    simpa [h] using hp
  · exact hmem
  · simp only [isTargetChar, Measure.isUnitCharAnyCase, Text.isLetterAnyCase, hkey,
      Bool.or_eq_true, beq_iff_eq] at h
    rcases h with ((((hletter | rfl) | rfl) | rfl) | rfl) | rfl
    · have hp := @of_lt_128 (fun c => !Text.isLetter c || targetChars.contains c)
        (by decide +kernel) c (lt_128_of_isLetter hletter)
      simpa [hletter] using hp
    all_goals decide

/-- What holds of all characters of targets is found by going through them. -/
theorem of_isTargetChar {p : Char → Bool} (hall : targetChars.all p = true) {c : Char}
    (h : isTargetChar c = true) : p c = true :=
  List.all_eq_true.mp hall c (mem_targetChars h)

theorem isTargetChar_of_isLetter {c : Char} (h : Text.isLetter c = true) :
    isTargetChar c = true := by
  have hp := @of_lt_128 (fun c => !Text.isLetter c || isTargetChar c) (by decide +kernel) c
    (lt_128_of_isLetter h)
  simpa [h] using hp

theorem isTargetChar_of_isUnitChar {c : Char} (h : Measure.isUnitChar c = true) :
    isTargetChar c = true := by
  simp only [Measure.isUnitChar, Bool.or_eq_true, beq_iff_eq] at h
  rcases h with ((h | rfl) | rfl) | rfl
  · exact isTargetChar_of_isLetter h
  all_goals decide

theorem isTargetChar_of_isMicroUnitChar {c : Char} (h : Measure.isMicroUnitChar c = true) :
    isTargetChar c = true := by
  rw [Measure.isMicroUnitChar, Bool.or_eq_true, beq_iff_eq] at h
  rcases h with h | rfl
  · exact isTargetChar_of_isUnitChar h
  · decide

theorem isTargetChar_of_anyCase {c : Char} (h : Measure.isUnitCharAnyCase c = true) :
    isTargetChar c = true := by
  simp [isTargetChar, h]

/-- Whether `c` is part of a unit wherever it stands: a letter, a raised digit or the sign of feet
or inches.  Hyphens and slashes may also be signs between numbers. -/
def isUnitMark (c : Char) : Bool :=
  (isTargetChar c && !(c == '-' || c == '/')) || c == '\'' || c == '"'

/-- Whether `c` may stand in a number: a digit, a point, the slash of a fraction or a blank. -/
def isAmountChar (c : Char) : Bool :=
  isDigit c || c == '.' || c == '/' || isBlank c

/-- Blanks and parentheses. -/
def isSpacing (c : Char) : Bool :=
  isBlank c || c == '(' || c == ')'

theorem isDigit_of_isTargetChar {c : Char} (h : isTargetChar c = true) : isDigit c = false := by
  have hp := @of_isTargetChar (fun c => !isDigit c) (by decide +kernel) c h
  simpa using hp

theorem isSpacing_of_isTargetChar {c : Char} (h : isTargetChar c = true) :
    isSpacing c = false := by
  have hp := @of_isTargetChar (fun c => !isSpacing c) (by decide +kernel) c h
  simpa using hp

theorem isBlank_of_isTargetChar {c : Char} (h : isTargetChar c = true) : isBlank c = false := by
  have hspacing := isSpacing_of_isTargetChar h
  simp only [isSpacing, Bool.or_eq_false_iff] at hspacing
  exact hspacing.1.1

theorem isUnitMark_of_isAmountChar {c : Char} (h : isAmountChar c = true) :
    isUnitMark c = false := by
  by_contra hmark
  simp only [isUnitMark, Bool.not_eq_false, Bool.or_eq_true, Bool.and_eq_true, beq_iff_eq] at hmark
  rcases hmark with (⟨htarget, hsign⟩ | rfl) | rfl
  · have hp := @of_isTargetChar (fun c => c == '-' || c == '/' || !isAmountChar c)
      (by decide +kernel) c htarget
    simp_all
  · revert h
    decide
  · revert h
    decide

theorem isUnitMark_of_isDigit {c : Char} (h : isDigit c = true) : isUnitMark c = false :=
  isUnitMark_of_isAmountChar (by simp [isAmountChar, h])

theorem isUnitMark_of_isBlank {c : Char} (h : isBlank c = true) : isUnitMark c = false :=
  isUnitMark_of_isAmountChar (by simp [isAmountChar, h])

theorem isSpacing_of_isBlank {c : Char} (h : isBlank c = true) : isSpacing c = true := by
  simp [isSpacing, h]

theorem isSpacing_of_isDigit {c : Char} (h : isDigit c = true) : isSpacing c = false := by
  have hopen : isDigit '(' = false := by decide
  have hclose : isDigit ')' = false := by decide
  simp only [isSpacing, Text.isBlank_of_isDigit h, Bool.or_eq_false_iff, beq_eq_false_iff_ne]
  refine ⟨⟨trivial, ?_⟩, ?_⟩
  · rintro rfl
    simp [hopen] at h
  · rintro rfl
    simp [hclose] at h

/-! ## Texts without spacing -/

/-- The text without blanks and parentheses. -/
def bare (s : Text) : Text :=
  s.filter fun c => !isSpacing c

@[simp] theorem bare_nil : bare [] = [] := rfl

@[simp] theorem bare_append (s t : Text) : bare (s ++ t) = bare s ++ bare t :=
  List.filter_append s t

theorem bare_cons_of_spacing {c : Char} (h : isSpacing c = true) (s : Text) :
    bare (c :: s) = bare s := by
  simp [bare, h]

theorem bare_cons_of_not {c : Char} (h : isSpacing c = false) (s : Text) :
    bare (c :: s) = c :: bare s := by
  simp [bare, h]

theorem mem_bare {c : Char} {s : Text} : c ∈ bare s ↔ c ∈ s ∧ isSpacing c = false := by
  simp [bare]

theorem bare_spacing {s : Text} (h : ∀ c ∈ s, isSpacing c = true) : bare s = [] := by
  rw [bare, List.filter_eq_nil_iff]
  intro c hc
  simp [h c hc]

theorem bare_eq_nil {s : Text} (h : ∀ c ∈ s, isBlank c = true) : bare s = [] :=
  bare_spacing fun c hc => isSpacing_of_isBlank (h c hc)

theorem bare_filter_brackets (s : Text) :
    bare (s.filter fun c => !(c == '(' || c == ')')) = bare s := by
  rw [bare, bare, List.filter_filter]
  apply List.filter_congr
  intro c _
  cases hspacing : isSpacing c with
  | true => rfl
  | false =>
    simp only [isSpacing, Bool.or_eq_false_iff] at hspacing
    simp [hspacing]

theorem bare_eq_self {s : Text} (h : ∀ c ∈ s, isSpacing c = false) : bare s = s := by
  rw [bare, List.filter_eq_self]
  intro c hc
  simp [h c hc]

theorem bare_unit {unit : Text} (h : ∀ c ∈ unit, isTargetChar c = true) : bare unit = unit :=
  bare_eq_self fun c hc => isSpacing_of_isTargetChar (h c hc)

theorem bare_digits {w : Text} (h : ∀ c ∈ w, isDigit c = true) : bare w = w :=
  bare_eq_self fun c hc => isSpacing_of_isDigit (h c hc)

theorem bare_dropWhile (s : Text) : bare (s.dropWhile isBlank) = bare s := by
  have hsplit : bare s = bare (s.takeWhile isBlank) ++ bare (s.dropWhile isBlank) := by
    rw [← bare_append, List.takeWhile_append_dropWhile]
  rw [hsplit, bare_eq_nil fun c hc => List.mem_takeWhile_imp hc, List.nil_append]

theorem bare_reverse (s : Text) : bare s.reverse = (bare s).reverse :=
  List.filter_reverse

@[simp] theorem bare_strip (s : Text) : bare (Text.strip s) = bare s := by
  rw [Text.strip, Text.trim, bare_reverse, bare_dropWhile, bare_reverse, List.reverse_reverse,
    bare_dropWhile]

@[simp] theorem bare_singleSpaces (within : Bool) (s : Text) :
    bare (singleSpaces within s) = bare s := by
  have hspace : isSpacing ' ' = true := by decide
  induction s generalizing within with
  | nil => rfl
  | cons c s ih =>
    rw [singleSpaces]
    split
    next hc =>
      rw [bare_cons_of_spacing (isSpacing_of_isBlank hc)]
      split
      · exact ih true
      · rw [bare_cons_of_spacing hspace]
        exact ih true
    · by_cases hc : isSpacing c = true
      · rw [bare_cons_of_spacing hc, bare_cons_of_spacing hc, ih]
      · rw [Bool.not_eq_true] at hc
        rw [bare_cons_of_not hc, bare_cons_of_not hc, ih]

end DeskCalc.Query
