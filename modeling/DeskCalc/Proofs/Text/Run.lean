import DeskCalc.Text.Basic
import Mathlib.Data.List.TakeWhile

/-!
# Runs of characters

A run of one class of characters, taken from the beginning of a text, ends where the text goes on
with a character of another class.
-/

namespace DeskCalc.Text

/-- The text does not begin with a character of the class `p`. -/
def StopsBefore (p : Char → Bool) (s : Text) : Prop :=
  s.head?.any p = false

theorem stopsBefore_nil (p : Char → Bool) : StopsBefore p [] :=
  rfl

theorem stopsBefore_cons {p : Char → Bool} {c : Char} {s : Text} :
    StopsBefore p (c :: s) ↔ p c = false := by
  simp [StopsBefore]

theorem takeWhile_of_stops {p : Char → Bool} {s : Text} (h : StopsBefore p s) :
    s.takeWhile p = [] := by
  cases s with
  | nil => rfl
  | cons c s => simp [stopsBefore_cons.mp h]

theorem dropWhile_of_stops {p : Char → Bool} {s : Text} (h : StopsBefore p s) :
    s.dropWhile p = s := by
  cases s with
  | nil => rfl
  | cons c s => simp [stopsBefore_cons.mp h]

theorem takeWhile_run {p : Char → Bool} {run rest : Text} (hrun : ∀ c ∈ run, p c = true)
    (hrest : StopsBefore p rest) : (run ++ rest).takeWhile p = run := by
  rw [List.takeWhile_append_of_pos hrun, takeWhile_of_stops hrest, List.append_nil]

theorem dropWhile_run {p : Char → Bool} {run rest : Text} (hrun : ∀ c ∈ run, p c = true)
    (hrest : StopsBefore p rest) : (run ++ rest).dropWhile p = rest := by
  rw [List.dropWhile_append_of_pos hrun, dropWhile_of_stops hrest]

theorem stopsBefore_dropWhile (p : Char → Bool) (s : Text) : StopsBefore p (s.dropWhile p) := by
  induction s with
  | nil => rfl
  | cons c s ih =>
    by_cases hc : p c = true
    · simpa [hc] using ih
    · simp [StopsBefore, hc]

/-- Every text is a run and what stops it. -/
theorem exists_run (p : Char → Bool) (s : Text) :
    ∃ run rest, s = run ++ rest ∧ (∀ c ∈ run, p c = true) ∧ StopsBefore p rest :=
  ⟨s.takeWhile p, s.dropWhile p, List.takeWhile_append_dropWhile.symm,
    fun _ hc => List.mem_takeWhile_imp hc, stopsBefore_dropWhile p s⟩

end DeskCalc.Text
