import DeskCalc.Json.Plain
import DeskCalc.Proofs.Json.RoundTrip
import DeskCalc.Proofs.Number.Texts

/-!
# Documents as storable text

Running text shows halves, marks and everything else that is not printable as escapes.  The text
that a storable document stands for is therefore storable too.
-/

namespace DeskCalc

open Text (mark)

theorem Text.isPrintable_mark : Text.isPrintable mark = false := by
  decide +kernel

namespace Json

/-! ## Strings in quotes -/

theorem digitChar_ne_mark {d : Nat} (hd : d < 16) : mark ≠ Number.digitChar d := by
  decide +revert

theorem mark_not_mem_hexText (width n : Nat) : mark ∉ hexText width n := by
  rw [hexText_eq]
  intro hmem
  obtain ⟨d, hd, hmark⟩ := List.mem_map.mp hmem
  refine digitChar_ne_mark ?_ hmark.symm
  rcases List.mem_append.mp hd with hd | hd
  · rw [List.eq_of_mem_replicate hd]
    decide
  · exact Number.lt_of_mem_digitsIn (by decide) hd

theorem mark_not_mem_hiddenCode (n : Nat) : mark ∉ hiddenCode n := by
  have hback : mark ≠ '\\' := by decide
  have hx : mark ≠ 'x' := by decide
  have hu : mark ≠ 'u' := by decide
  have hlong : mark ≠ 'U' := by decide
  rw [hiddenCode]
  split
  · simp [hback, hx, mark_not_mem_hexText]
  · split
    · simp [hback, hu, mark_not_mem_hexText]
    · simp [hback, hlong, mark_not_mem_hexText]

theorem mark_not_mem_quotedCode {quote : Char} (hquote : mark ≠ quote) (n : Nat) :
    mark ∉ quotedCode quote n := by
  have hback : mark ≠ '\\' := by decide
  simp only [quotedCode]
  split
  · exact mark_not_mem_hiddenCode n
  split
  next hc =>
    simp only [Bool.or_eq_true, decide_eq_true_eq] at hc
    rcases hc with hc | hc
    · simp [hc, hback, hquote]
    · simp [hc, hback]
  split
  · decide
  split
  · decide
  split
  · decide
  split
  next hprintable =>
    intro hmem
    rw [← List.mem_singleton.mp hmem, Text.isPrintable_mark] at hprintable
    cases hprintable
  · exact mark_not_mem_hiddenCode n

theorem mark_not_mem_quoted (s : Text) : mark ∉ quoted s := by
  have hboth {quote : Char} (hquote : mark ≠ quote) :
      mark ∉ quote :: (Text.codes s).flatMap (quotedCode quote) ++ [quote] := by
    intro hmem
    simp only [List.cons_append, List.mem_cons, List.mem_append, List.mem_flatMap,
      List.not_mem_nil, or_false] at hmem
    rcases hmem with hmem | ⟨n, -, hmem⟩ | hmem
    · exact hquote hmem
    · exact mark_not_mem_quotedCode hquote n hmem
    · exact hquote hmem
  rw [quoted]
  split
  · exact hboth (by decide)
  · exact hboth (by decide)

/-! ## Documents -/

theorem mark_not_mem_intText (n : Int) : mark ∉ Number.intText n := by
  have htext := (Number.isNumberText_natText n.natAbs).signed (decide (n < 0))
  have hsigned : Number.intText n = Number.signed (decide (n < 0)) (Number.natText n.natAbs) := by
    rw [Number.intText, Number.signed]
    simp only [decide_eq_true_eq]
  exact hsigned ▸ htext.mark_not_mem

theorem mark_not_mem_recordText (x : Float) : mark ∉ Number.recordLayout.text x :=
  (Number.isNumberText_layout (l := Number.recordLayout)
    ⟨⟨'n', ['a', 'n'], rfl, by decide⟩, List.all_eq_true.mp (by decide)⟩
    ⟨⟨'i', ['n', 'f'], rfl, by decide⟩, List.all_eq_true.mp (by decide)⟩ x).mark_not_mem

mutual

theorem mark_not_mem_inner (j : Json) : mark ∉ inner j := by
  cases j with
  | null => decide
  | bool b => cases b <;> decide
  | int n => exact mark_not_mem_intText n
  | float x => exact mark_not_mem_recordText x
  | str s => exact mark_not_mem_quoted s.toList
  | list items =>
    have hopen : mark ≠ '[' := by decide
    have hclose : mark ≠ ']' := by decide
    simp [inner, hopen, hclose, mark_not_mem_innerItems items]
  | object members =>
    have hopen : mark ≠ '\x7b' := by decide
    have hclose : mark ≠ '\x7d' := by decide
    simp [inner, hopen, hclose, mark_not_mem_innerMembers members]

theorem mark_not_mem_innerItems (items : List Json) : mark ∉ innerItems items := by
  cases items with
  | nil => exact List.not_mem_nil
  | cons j items =>
    have hcomma : mark ≠ ',' := by decide
    have hblank : mark ≠ ' ' := by decide
    rw [innerItems]
    split
    · simp [mark_not_mem_inner j, mark_not_mem_innerItems items]
    · simp [hcomma, hblank, mark_not_mem_inner j, mark_not_mem_innerItems items]

theorem mark_not_mem_innerMembers (members : List (String × Json)) :
    mark ∉ innerMembers members := by
  cases members with
  | nil => exact List.not_mem_nil
  | cons m members =>
    obtain ⟨name, j⟩ := m
    have hcolon : mark ≠ ':' := by decide
    have hcomma : mark ≠ ',' := by decide
    have hblank : mark ≠ ' ' := by decide
    rw [innerMembers]
    split
    · simp [hcolon, hblank, mark_not_mem_quoted, mark_not_mem_inner j,
        mark_not_mem_innerMembers members]
    · simp [hcolon, hcomma, hblank, mark_not_mem_quoted, mark_not_mem_inner j,
        mark_not_mem_innerMembers members]

end

/-- The text that a storable document stands for can be stored. -/
theorem Storable.plain {room : Nat} {j : Json} (h : Storable room j) :
    Text.Storable j.plain := by
  cases h with
  | str hs => exact hs
  | null => exact Text.storable_of_mark_not_mem (mark_not_mem_inner _)
  | bool => exact Text.storable_of_mark_not_mem (mark_not_mem_inner _)
  | int => exact Text.storable_of_mark_not_mem (mark_not_mem_inner _)
  | float => exact Text.storable_of_mark_not_mem (mark_not_mem_inner _)
  | list => exact Text.storable_of_mark_not_mem (mark_not_mem_inner _)
  | object => exact Text.storable_of_mark_not_mem (mark_not_mem_inner _)

end Json
end DeskCalc
