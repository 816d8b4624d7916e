import DeskCalc.Proofs.Text.Run
import DeskCalc.Text.Blank

/-!
# Stripping blanks

Stripping a text takes away exactly the blanks at its two ends.
-/

namespace DeskCalc.Text

variable {left right s : Text}

theorem dropWhile_all {p : Char → Bool} (h : ∀ c ∈ s, p c = true) : s.dropWhile p = [] :=
  List.dropWhile_eq_nil_iff.mpr h

/-- What has no blank at its ends is left when it is stripped of the blanks around it. -/
theorem strip_between (hleft : ∀ c ∈ left, isBlank c = true) (hright : ∀ c ∈ right, isBlank c = true)
    (hfirst : StopsBefore isBlank s) (hlast : StopsBefore isBlank s.reverse) :
    strip (left ++ (s ++ right)) = s := by
  have hright' : ∀ c ∈ right.reverse, isBlank c = true := fun c hc => hright c (List.mem_reverse.mp hc)
  rw [strip, trim, List.dropWhile_append_of_pos hleft]
  cases s with
  | nil => rw [List.nil_append, dropWhile_all hright, List.reverse_nil, List.dropWhile_nil,
      List.reverse_nil]
  | cons c s =>
    have hfront : (c :: s ++ right).dropWhile isBlank = c :: s ++ right :=
      dropWhile_of_stops (stopsBefore_cons.mpr (stopsBefore_cons.mp hfirst))
    rw [hfront, List.reverse_append, List.dropWhile_append_of_pos hright', dropWhile_of_stops hlast,
      List.reverse_reverse]

/-- A text is what it is stripped to, with blanks around that. -/
theorem exists_strip (s : Text) : ∃ left right, s = left ++ (strip s ++ right) ∧
    (∀ c ∈ left, isBlank c = true) ∧ (∀ c ∈ right, isBlank c = true) ∧
    StopsBefore isBlank (strip s).reverse := by
  obtain ⟨left, rest, rfl, hleft, hstop⟩ := exists_run isBlank s
  obtain ⟨behind, front, hsplit, hbehind, hstop'⟩ := exists_run isBlank rest.reverse
  have hrest : rest = front.reverse ++ behind.reverse := by
    rw [← List.reverse_append, ← hsplit, List.reverse_reverse]
  have hstrip : strip (left ++ rest) = front.reverse := by
    rw [strip, trim, List.dropWhile_append_of_pos hleft, dropWhile_of_stops hstop, hsplit,
      List.dropWhile_append_of_pos hbehind, dropWhile_of_stops hstop']
  refine ⟨left, behind.reverse, ?_, hleft, fun c hc => hbehind c (List.mem_reverse.mp hc), ?_⟩
  · rw [hstrip, ← hrest]
  · rwa [hstrip, List.reverse_reverse]

end DeskCalc.Text
