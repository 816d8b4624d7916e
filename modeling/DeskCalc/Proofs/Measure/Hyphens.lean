import DeskCalc.Measure.MixedSum
import DeskCalc.Proofs.Text.Alphabet
import DeskCalc.Proofs.Text.Run

/-!
# Hyphens inside texts

A text is cut into the parts of a sum at its signs, apart from hyphens between two letters.  A text
in which there are no other signs is passed over as a whole, whatever stands in front of it or
behind it.

The main definition is `hyphenated`.
-/

namespace DeskCalc.Measure

/-- None of the text's signs separates operands, where `before` is the character in front of the
text. -/
def hyphenated (before : Option Char) : Text → Bool
  | [] => true
  | c :: rest => !separates before c rest.head? && hyphenated (some c) rest

variable {before after : Option Char} {c : Char} {s t rest taken : Text}

/-- Whether the character is a sign. -/
def isSign (c : Char) : Bool :=
  c == '+' || c == '-'

theorem separates_eq : separates before c after =
    (isSign c && !(before.any Text.isLetter && after.any Text.isLetter)) :=
  rfl

theorem separates_of_not_sign (hc : isSign c = false) : separates before c after = false := by
  rw [separates_eq, hc, Bool.false_and]

/-- A sign that no letter follows separates. -/
theorem separates_of_sign (hc : isSign c = true) (hafter : after.any Text.isLetter = false) :
    separates before c after = true := by
  rw [separates_eq, hc, hafter, Bool.and_false, Bool.not_false, Bool.and_true]

/-- What does not separate at the end of a text does not separate in front of anything else. -/
theorem separates_append (h : separates before c s.head? = false) :
    separates before c (s ++ t).head? = false := by
  cases s with
  | cons d s => exact h
  | nil =>
    have hsign : isSign c = false := by
      cases hc : isSign c with
      | false => rfl
      | true =>
        rw [separates_of_sign hc rfl] at h
        cases h
    exact separates_of_not_sign hsign

theorem hyphenated_cons : hyphenated before (c :: s) = true ↔
    separates before c s.head? = false ∧ hyphenated (some c) s = true := by
  rw [hyphenated, Bool.and_eq_true, Bool.not_eq_true']

/-- What stands in front of a text can only make a hyphen of its first sign. -/
theorem hyphenated_mono (h : hyphenated none s = true) : hyphenated before s = true := by
  cases s with
  | nil => rfl
  | cons c s =>
    obtain ⟨hfirst, hrest⟩ := hyphenated_cons.mp h
    have hsign : isSign c = false := by simpa [separates_eq] using hfirst
    exact hyphenated_cons.mpr ⟨separates_of_not_sign hsign, hrest⟩

theorem hyphenated_of_not_sign (h : ∀ c ∈ s, isSign c = false) : hyphenated before s = true := by
  induction s generalizing before with
  | nil => rfl
  | cons c s ih =>
    obtain ⟨hc, hs⟩ := List.forall_mem_cons.mp h
    exact hyphenated_cons.mpr ⟨separates_of_not_sign hc, ih hs⟩

theorem hyphenated_append (hs : hyphenated before s = true) (ht : hyphenated none t = true) :
    hyphenated before (s ++ t) = true := by
  induction s generalizing before with
  | nil => exact hyphenated_mono ht
  | cons c s ih =>
    obtain ⟨hfirst, hrest⟩ := hyphenated_cons.mp hs
    exact hyphenated_cons.mpr ⟨separates_append hfirst, ih hrest⟩

/-! ## Letters in either case -/

theorem isSign_toLower (c : Char) : isSign c = true → c.toLower = c := by
  intro hc
  rw [isSign, Bool.or_eq_true, beq_iff_eq, beq_iff_eq] at hc
  rcases hc with rfl | rfl <;> decide

theorem any_isLetter_of_toLower (h : (before.map Char.toLower).any Text.isLetter = true) :
    before.any Text.isLetter = true := by
  cases before with
  | none => exact h
  | some c => exact Text.isLetter_of_toLower h

/-- Capitals are letters as well. -/
theorem hyphenated_of_lower (h : hyphenated (before.map Char.toLower) (s.map Char.toLower) = true) :
    hyphenated before s = true := by
  induction s generalizing before with
  | nil => rfl
  | cons c s ih =>
    obtain ⟨hfirst, hrest⟩ := hyphenated_cons.mp h
    refine hyphenated_cons.mpr ⟨?_, ih hrest⟩
    by_contra hseparates
    rw [Bool.not_eq_false, separates_eq, Bool.and_eq_true, Bool.not_eq_true',
      Bool.and_eq_false_iff] at hseparates
    obtain ⟨hsign, hletters⟩ := hseparates
    rw [isSign_toLower c hsign, separates_eq, hsign, Bool.true_and, Bool.not_eq_false',
      Bool.and_eq_true, List.head?_map] at hfirst
    rcases hletters with hbefore | hafter
    · rw [any_isLetter_of_toLower hfirst.1] at hbefore
      cases hbefore
    · rw [any_isLetter_of_toLower hfirst.2] at hafter
      cases hafter

/-! ## Cutting -/

/-- A hyphenated text is not cut. -/
theorem splitFrom_append (h : hyphenated before s = true) :
    splitFrom before taken (s ++ rest) =
      splitFrom (s.getLast?.or before) (s.reverse ++ taken) rest := by
  induction s generalizing before taken with
  | nil => rfl
  | cons c s ih =>
    obtain ⟨hfirst, hrest⟩ := hyphenated_cons.mp h
    have hnot : ¬separates before c (s ++ rest).head? = true := by
      rw [separates_append hfirst]
      exact Bool.false_ne_true
    rw [List.cons_append, splitFrom, if_neg hnot, ih hrest, List.reverse_cons, List.append_assoc,
      List.singleton_append]
    congr 1
    cases s with
    | nil => rfl
    | cons d s => simp [List.getLast?_cons]

end DeskCalc.Measure
