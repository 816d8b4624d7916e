import DeskCalc.Proofs.Query.Answers
import DeskCalc.Session.Submit

/-!
# The answers of rules

Whatever a rule answers has one of the forms of answers, and so has the answer of the first rule
that decides a query.  A session therefore never breaks off on the answer to a query.
-/

namespace DeskCalc
namespace Query

open Attempt (Gives)

/-! ## What outcomes answer -/

namespace Outcome

variable {P : Text → Prop}

/-- The answer, if there is one, has the property `P`. -/
def Answers (P : Text → Prop) (o : Outcome) : Prop :=
  ∀ t, o = answer t → P t

theorem answers_answer {t : Text} (h : P t) : Answers P (answer t) := by
  intro u hu
  cases hu
  exact h

theorem answers_pass : Answers P pass := nofun

theorem answers_halt : Answers P halt := nofun

theorem answers_orElse {x y : Outcome} (hx : Answers P x) (hy : Answers P y) :
    Answers P (x <|> y) := by
  intro t ht
  cases x with
  | pass => exact hy t ht
  | halt => cases ht
  | answer u => exact hx t ht
  | broken f => cases ht

theorem answers_ofAttempt {x : Attempt Text} (hx : Gives P x) : Answers P (ofAttempt x) := by
  intro t ht
  cases x with
  | found u =>
    cases ht
    exact hx t rfl
  | nothing => cases ht
  | broken f => cases ht

theorem answers_decide {x : Attempt Text} (hx : Gives P x) : Answers P (decide x) := by
  intro t ht
  cases x with
  | found u =>
    cases ht
    exact hx t rfl
  | nothing => cases ht
  | broken f => cases ht

theorem answers_ofOption {o : Option Text} (h : ∀ t, o = some t → P t) :
    Answers P (ofOption o) := by
  intro t ht
  cases o with
  | none => cases ht
  | some u =>
    cases ht
    exact h t rfl

theorem ofAttempt_eq_answer {x : Attempt Text} {t : Text} :
    ofAttempt x = answer t ↔ x = .found t := by
  cases x with
  | found u => simp [ofAttempt]
  | nothing => simp [ofAttempt]
  | broken e => simp [ofAttempt]

theorem decide_eq_answer {x : Attempt Text} {t : Text} :
    decide x = answer t ↔ x = .found t := by
  cases x with
  | found u => simp [decide]
  | nothing => simp [decide]
  | broken e => simp [decide]

theorem ofOption_eq_answer {o : Option Text} {t : Text} :
    ofOption o = answer t ↔ o = some t := by
  cases o with
  | none => simp [ofOption]
  | some u => simp [ofOption]

theorem orElse_eq_answer {x y : Outcome} {t : Text} :
    (x <|> y) = answer t ↔ x = answer t ∨ x = pass ∧ y = answer t := by
  cases x with
  | pass => simp [HOrElse.hOrElse, OrElse.orElse, orElse]
  | halt => simp [HOrElse.hOrElse, OrElse.orElse, orElse]
  | answer u => simp [HOrElse.hOrElse, OrElse.orElse, orElse]
  | broken e => simp [HOrElse.hOrElse, OrElse.orElse, orElse]

end Outcome

open Outcome (Answers answers_answer answers_pass answers_halt answers_orElse answers_ofAttempt
  answers_decide answers_ofOption)

/-! ## The rules one by one -/

theorem answers_answerFixed (s : Text) : Answers Answer (answerFixed s) := by
  apply answers_ofOption
  intro t ht
  obtain ⟨a, ha, rfl⟩ := Option.map_eq_some_iff.mp ht
  exact .fixed (Json.mem_of_lookup ha)

theorem answers_answerDoubleStar (s : Text) : Answers Answer (answerDoubleStar s) := by
  rw [answerDoubleStar]
  split
  · exact answers_halt
  · exact answers_pass

theorem answer_display (x : Float) : Answer (Number.display x) :=
  .number (Number.isNumberText_display x)

theorem answers_answerCall (s : Text) : Answers Answer (answerCall s) := by
  rw [answerCall]
  split
  · exact answers_pass
  · apply answers_ofAttempt
    refine Attempt.gives_bind fun x => Attempt.gives_bind fun _ => ?_
    exact Attempt.gives_found (answer_display x)

theorem answers_answerConstant (s : Text) : Answers Answer (answerConstant s) := by
  simp only [answerConstant]
  split
  next x _ => exact answers_answer (.number (Number.isNumberText_numberText x))
  · exact answers_pass

theorem answers_answerTemperature (s : Text) : Answers Answer (answerTemperature s) := by
  apply answers_ofOption
  intro t ht
  simp only [Option.bind_eq_bind, Option.bind_eq_some_iff, Option.pure_def] at ht
  obtain ⟨_, -, _, -, scale, -, ht⟩ := ht
  cases ht
  exact .quantity (Number.isNumberText_fixed _ _) (by cases scale <;> decide)

theorem mark_not_mem_code {code : String} (h : code ∈ Currency.codes) :
    Text.mark ∉ code.toList := by
  have hall : ∀ c ∈ Currency.codes, Text.mark ∉ c.toList := by decide
  exact hall code h

theorem answers_answerCurrency (s : Text) : Answers Answer (answerCurrency s) := by
  apply answers_ofOption
  intro t ht
  simp only [Option.bind_eq_bind, Option.bind_eq_some_iff] at ht
  obtain ⟨_, -, ht⟩ := ht
  unfold Currency.convert? at ht
  split at ht
  next htarget =>
    cases ht
    exact .quantity (Number.isNumberText_fixed _ _)
      (mark_not_mem_code (List.mem_map_of_mem (Json.mem_of_lookup htarget)))
  · cases ht

theorem answers_answerFeetInches (s : Text) : Answers Answer (answerFeetInches s) := by
  rw [answerFeetInches]
  split
  · exact answers_pass
  · exact answers_ofAttempt (gives_convertQuantity _ _)

theorem answers_shownValue (s : Text) : Answers Answer (shownValue s) := by
  rw [shownValue]
  split
  next x _ => exact answers_answer (answer_display x)
  · exact answers_pass

theorem answers_answerArithmetic (s : Text) : Answers Answer (answerArithmetic s) := by
  rw [answerArithmetic]
  split
  · exact answers_shownValue _
  · exact answers_pass

theorem answers_answerBase (s : Text) : Answers Answer (answerBase s) := by
  rw [answerBase]
  split
  · apply answers_decide
    refine Attempt.gives_bind fun x => Attempt.gives_bind fun r => ?_
    exact Attempt.gives_found (.numeral r x)
  · exact answers_pass

theorem answers_answerProduct (s : Text) : Answers Answer (answerProduct s) := by
  apply answers_ofOption
  intro t ht
  simp only [Option.bind_eq_bind, Option.bind_eq_some_iff] at ht
  obtain ⟨_, -, _, -, _, -, ht⟩ := ht
  split at ht
  · exact answer_ofBase? ht
  · cases ht

theorem gives_convertSum (sum target : Text) (multiplier : Float) :
    Gives Answer (convertSum sum target multiplier) :=
  Attempt.gives_bind fun _ => Attempt.gives_bind fun _ => Attempt.gives_bind fun _ =>
    gives_convertQuantity _ _

theorem answers_answerGroup (s : Text) : Answers Answer (answerGroup s) := by
  apply answers_ofAttempt
  refine Attempt.gives_orElse ?_ (Attempt.gives_orElse ?_ ?_)
  · exact Attempt.gives_bind fun _ => Attempt.gives_bind fun _ => gives_convertSum _ _ _
  · exact Attempt.gives_bind fun _ => gives_convertSum _ _ _
  · exact Attempt.gives_bind fun _ => gives_convertSum _ _ _

theorem answers_operate (s : Text) : Answers Answer (operate s) := by
  have hshown (z : Float) :
      Answers Answer (if z.isNaN then .pass else .answer (Number.display z)) := by
    split
    · exact answers_pass
    · exact answers_answer (answer_display z)
  unfold operate
  split
  · exact answers_pass
  · split
    · split
      · exact answers_halt
      · exact hshown _
    · exact answers_pass

theorem answers_answerPair (s target : Text) : Answers Answer (answerPair s target) := by
  refine answers_orElse (answers_ofAttempt ?_) (answers_operate s)
  exact Attempt.gives_bind fun _ => Attempt.gives_bind fun _ => gives_convertQuantity _ _

theorem answers_answerCompact (s : Text) : Answers Answer (answerCompact s) := by
  refine answers_orElse ?_ ?_
  all_goals
    dsimp only
    split
    · exact answers_answerPair _ _
    · exact answers_pass

theorem answers_answerTwoUnits (s : Text) : Answers Answer (answerTwoUnits s) := by
  apply answers_ofOption
  intro t ht
  simp only [Option.bind_eq_bind, Option.bind_eq_some_iff] at ht
  obtain ⟨_, -, _, -, _, -, ht⟩ := ht
  split at ht
  · exact answer_ofBase? ht
  · cases ht

theorem gives_convertValue (value target : Text) :
    Gives Answer (convertValue value target) := by
  have hspeed (x : Float) (unit : Text) :
      Gives Answer (Attempt.ofOption (Measure.convertSpeed? x unit target)) :=
    Attempt.gives_ofOption fun _ h => answer_convertSpeed? h
  refine Attempt.gives_orElse ?_ (Attempt.gives_orElse ?_ (Attempt.gives_orElse ?_
    (Attempt.gives_orElse ?_ (gives_convertQuantity _ _))))
  · refine Attempt.gives_bind fun _ => Attempt.gives_bind fun _ => Attempt.gives_bind fun _ => ?_
    exact gives_convertQuantity _ _
  · refine Attempt.gives_bind fun _ => Attempt.gives_orElse (hspeed _ _) ?_
    exact gives_convertQuantity _ _
  · exact Attempt.gives_bind fun _ => hspeed _ _
  · exact Attempt.gives_bind fun _ => gives_convertQuantity _ _

theorem answers_answerConversion (s : Text) : Answers Answer (answerConversion s) := by
  rw [answerConversion]
  split
  · exact answers_decide (gives_convertValue _ _)
  · split
    · exact answers_decide (gives_convertValue _ _)
    · exact answers_pass

theorem answers_answerBareQuantity (s : Text) : Answers Answer (answerBareQuantity s) := by
  rw [answerBareQuantity]
  split
  · exact answers_halt
  · exact answers_pass

theorem answers_answerExpression (s : Text) : Answers Answer (answerExpression s) := by
  rw [answerExpression]
  split
  · exact answers_shownValue _
  · exact answers_pass

/-! ## All rules -/

theorem answers_apply (rule : Rule) (s : Text) : Answers Answer (rule.apply s) := by
  cases rule with
  | fixedAnswer => exact answers_answerFixed s
  | doubleStar => exact answers_answerDoubleStar s
  | functionCall => exact answers_answerCall s
  | constant => exact answers_answerConstant s
  | temperature => exact answers_answerTemperature s
  | currency => exact answers_answerCurrency s
  | feetInches => exact answers_answerFeetInches s
  | arithmetic => exact answers_answerArithmetic s
  | base => exact answers_answerBase s
  | product => exact answers_answerProduct s
  | group => exact answers_answerGroup s
  | compact => exact answers_answerCompact s
  | twoUnits => exact answers_answerTwoUnits s
  | conversion => exact answers_answerConversion s
  | bareQuantity => exact answers_answerBareQuantity s
  | sum => exact answers_ofAttempt (gives_mixedSum s)
  | expression => exact answers_answerExpression s

theorem answers_firstOutcome (s : Text) (rules : List Rule) :
    Answers Answer (firstOutcome s rules) := by
  induction rules with
  | nil => exact answers_pass
  | cons rule rules ih => exact answers_orElse (answers_apply rule s) ih

/-- Whatever answers a query has one of the forms of answers. -/
theorem answer_of_resolve {s answer : Text} (h : resolve s = some answer) : Answer answer := by
  simp only [resolve] at h
  split at h
  · cases h
  · split at h
    next heq =>
      cases h
      exact answers_firstOutcome _ _ answer heq
    · cases h

end Query

theorem Session.answer_of_queryAnswer? {line answer : Text} (h : queryAnswer? line = some answer) :
    Query.Answer answer := by
  rw [queryAnswer?] at h
  split at h
  · exact Query.answer_of_resolve h
  · cases h

/-- Taking the number of an answer to a query does not break off, and a number that is taken is
finite. -/
theorem Session.finiteAnswer_of_queryAnswer? {line answer : Text}
    (h : queryAnswer? line = some answer) :
    ∃ number : Option Float, finiteAnswer answer = .ok number ∧
      ∀ x, number = some x → x.isFinite = true := by
  have hsearch := (answer_of_queryAnswer? h).searchable
  rw [finiteAnswer]
  cases hvalue : Number.answerValue answer with
  | nothing => exact ⟨none, rfl, nofun⟩
  | broken f => exact absurd hvalue (hsearch f)
  | found x =>
    refine ⟨_, rfl, ?_⟩
    intro y hy
    split at hy
    next hx =>
      cases hy
      exact hx
    · cases hy

end DeskCalc
