import DeskCalc.Proofs.Query.Telltales
import DeskCalc.Proofs.Session.Safety

/-!
# Queries in a session

A session shows the answer to a line that one of the rules for conversions answers just when the
line bears a telltale of a query.  Any other such line is taken for an expression.
-/

namespace DeskCalc
namespace Query

variable {s t : Text} {rule : Rule}

theorem answeredBy?_strip (s : Text) : answeredBy? (Text.strip s) = answeredBy? s := by
  simp only [answeredBy?, strip_strip]

/-- What a rule for conversions answers is more than a word. -/
theorem digit_mem_of_answeredBy? (hrule : rule ∈ Rule.conversions)
    (h : answeredBy? s = some (rule, t)) : ∃ d ∈ Text.strip s, Text.isDigit d = true := by
  obtain ⟨value, target, us, hus, hasks, hquantities, -⟩ :=
    asks_of_apply hrule (apply_of_answeredBy? h)
  exact digit_mem hus hasks hquantities

end Query

namespace Session

open Query (Rule answeredBy? looksLikeQuery Bears)

variable {line answer : Text} {raw : String} {rule : Rule}

/-- The answer to a line that looks like a query is shown. -/
theorem answerLine_of_answer (h : queryAnswer? line = some answer) (s : Session) :
    (s.answerLine line).2 =
      .ok (some ⟨String.ofList line, String.ofList answer, Entry.units, .null⟩) := by
  obtain ⟨number, hnumber, -⟩ := finiteAnswer_of_queryAnswer? h
  simp only [answerLine, h, concludeAnswer, hnumber]
  rfl

/-- A line that is taken for an expression shows no answer to a query. -/
theorem kind_of_expression {s : Session} {e : Entry} (h : queryAnswer? line = none)
    (hentry : (s.answerLine line).2 = .ok (some e)) : e.kind ≠ Entry.units := by
  simp only [answerLine, h, concludeExpression] at hentry
  split at hentry
  · cases hentry
  · split at hentry
    · cases hentry
      show Entry.failure ≠ Entry.units
      decide
    · cases hentry
  · cases hentry
    show Entry.normal ≠ Entry.units
    decide

/-- A line that is neither blank nor `clear` nor an assignment is answered or evaluated. -/
theorem submit_eq_answerLine (hline : Text.strip raw.toList ≠ [])
    (hclear : Text.strip raw.toList ≠ "clear".toList)
    (hassign : assignment? (Text.strip raw.toList) = none) (s : Session) :
    s.submit raw =
      { s.addHistory (String.ofList (Text.strip raw.toList)) with inputValue := "" }.answerLine
        (Text.strip raw.toList) := by
  simp only [submit, List.isEmpty_eq_false_iff.mpr hline, Bool.false_eq_true, if_false,
    if_neg hclear, assign, hassign]

theorem ne_clear_of_digit {s : Text} (h : ∃ d ∈ s, Text.isDigit d = true) :
    s ≠ [] ∧ s ≠ "clear".toList := by
  obtain ⟨d, hd, hdigit⟩ := h
  refine ⟨List.ne_nil_of_mem hd, ?_⟩
  rintro rfl
  have hall : "clear".toList.all (fun c => !Text.isDigit c) = true := by decide
  have hnot := List.all_eq_true.mp hall d hd
  rw [hdigit] at hnot
  cases hnot

/-- A line that one of the rules for conversions answers, and that is no assignment, looks like a
query just when it bears a telltale, and then a session shows the answer. -/
theorem shows_answer_iff (hrule : rule ∈ Rule.conversions)
    (h : answeredBy? raw.toList = some (rule, answer))
    (hassign : assignment? (Text.strip raw.toList) = none) (s : Session) :
    (looksLikeQuery (Text.strip raw.toList) = true ↔ Bears (Text.strip raw.toList)) ∧
      ((s.submit raw).2 = .ok (some ⟨String.ofList (Text.strip raw.toList),
        String.ofList answer, Entry.units, .null⟩) ↔ Bears (Text.strip raw.toList)) := by
  have hlooks := Query.looksLikeQuery_iff hrule h
  obtain ⟨hne, hclear⟩ := ne_clear_of_digit (Query.digit_mem_of_answeredBy? hrule h)
  refine ⟨hlooks, ?_⟩
  rw [submit_eq_answerLine hne hclear hassign]
  constructor
  · intro hshown
    by_contra hbears
    have hnone : queryAnswer? (Text.strip raw.toList) = none := by
      rw [queryAnswer?, if_neg (mt hlooks.mp hbears)]
    exact kind_of_expression hnone hshown rfl
  · intro hbears
    have hanswer : queryAnswer? (Text.strip raw.toList) = some answer := by
      rw [queryAnswer?, if_pos (hlooks.mpr hbears), Query.resolve_eq, Query.answeredBy?_strip, h,
        Option.map_some]
    exact answerLine_of_answer hanswer _

/-- A quantity with a fraction is converted in a new session. -/
theorem shows_answer_iff_fraction :
    answeredBy? "1/2 km in m".toList = some (.conversion, "500 m".toList) ∧
      assignment? (Text.strip "1/2 km in m".toList) = none ∧
      (looksLikeQuery (Text.strip "1/2 km in m".toList) = true ↔
        Bears (Text.strip "1/2 km in m".toList)) ∧
      (((fresh ⟨100, 50, 100⟩).submit "1/2 km in m").2 =
          .ok (some ⟨String.ofList (Text.strip "1/2 km in m".toList), String.ofList "500 m".toList,
            Entry.units, .null⟩) ↔
        Bears (Text.strip "1/2 km in m".toList)) := by
  have hanswer : answeredBy? "1/2 km in m".toList = some (.conversion, "500 m".toList) := by
    decide +kernel
  have hassign : assignment? (Text.strip "1/2 km in m".toList) = none := by decide
  exact ⟨hanswer, hassign, shows_answer_iff (by decide) hanswer hassign _⟩

/-- A sum of quantities with decimals has an answer, which no session shows. -/
theorem decimal_sum_unseen :
    answeredBy? "2.000 fl-oz + 1.000 fl-oz".toList = some (.sum, "0.089 l".toList) ∧
      assignment? (Text.strip "2.000 fl-oz + 1.000 fl-oz".toList) = none ∧
      looksLikeQuery (Text.strip "2.000 fl-oz + 1.000 fl-oz".toList) = false ∧
      ∀ (s : Session) (e : Entry), (s.submit "2.000 fl-oz + 1.000 fl-oz").2 = .ok (some e) →
        e.kind ≠ Entry.units := by
  have hlooks : looksLikeQuery (Text.strip "2.000 fl-oz + 1.000 fl-oz".toList) = false := by
    decide +kernel
  have hassign : assignment? (Text.strip "2.000 fl-oz + 1.000 fl-oz".toList) = none := by decide
  refine ⟨by decide +kernel, hassign, hlooks, ?_⟩
  intro s e he
  rw [submit_eq_answerLine (by decide) (by decide) hassign] at he
  exact kind_of_expression (by rw [queryAnswer?, hlooks, if_neg Bool.false_ne_true]) he

end Session
end DeskCalc
