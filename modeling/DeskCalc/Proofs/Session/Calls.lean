import DeskCalc.Proofs.Number.Texts
import DeskCalc.Proofs.Query.Calls
import DeskCalc.Proofs.Session.Assignments
import DeskCalc.Proofs.Session.Queries
import DeskCalc.Proofs.Session.Snapshot

/-!
# Calls at variables

A line such as `abs(x)` is offered to queries first, which do not know the variables.  Where they
have no answer, the text of the number takes the place of the name, and so every name with that
number leaves the same last result.  Names that queries take for something else are an exception:
whatever `e` has been set to, `abs(e)` is about Euler's number.
-/

namespace DeskCalc.Session

open Expression (Function plainZero settle)
open Query (Captured callLine)

variable {bindings : List (String × Json)} {limits : Limits} {s s₀ : Session} {f : Function}
  {n m : Identifier} {v w : Float}

/-! ## Substitution in a call -/

/-- The name of a function, which might be that of a variable. -/
def functionName (f : Function) : Identifier where
  text := f.name.toList
  head := by
    cases f <;> exact ⟨_, _, rfl, rfl⟩
  chars := Query.isNameChar_name f

theorem callLine_eq (f : Function) (n : Identifier) :
    callLine f n = (functionName f).text ++ '(' :: (n.text ++ ')' :: []) :=
  rfl

theorem putLast_callLine : putLast bindings (callLine f n) = callLine f n := by
  refine flatMap_eq_self _ fun hmem => ?_
  rcases Query.mem_callLine hmem with h | h | h <;> cases h

theorem namesFrom_callLine (f : Function) (n : Identifier) :
    namesFrom [] (callLine f n) = [(functionName f).text, n.text] := by
  rw [callLine_eq, namesFrom_append (by decide), namesFrom_append (by decide),
    namesFrom_identifier, namesFrom_identifier]
  rfl

/-- Substitution treats the function and the name, and leaves the parentheses. -/
theorem substitute_callLine (h : AllFinite bindings) (f : Function) (n : Identifier) :
    substitute bindings (callLine f n) =
      .ok (writtenName bindings (functionName f) ++ '(' :: (writtenName bindings n ++ [')'])) := by
  have hnames := @isIdentifier_of_mem_sortedNamesIn (callLine f n)
  have hmentioned {name : Text} (hname : name ∈ [(functionName f).text, n.text]) :
      String.ofList name ∈ sortedNamesIn (callLine f n) :=
    List.mem_mergeSort.mpr (mem_mentionedNames (namesFrom_callLine f n ▸ hname))
  obtain ⟨hopening, hclosing⟩ := Query.isWord_parentheses
  have hnothing := @replaceNames_nameless bindings _ hnames [] Text.nameless_nil
  rw [substitute_eq h, putLast_callLine]
  nth_rewrite 2 [callLine_eq]
  rw [replaceNames_append hnames hopening, replaceNames_append hnames hclosing,
    replaceNames_identifier h hnames (hmentioned List.mem_cons_self),
    replaceNames_identifier h hnames (hmentioned (List.mem_cons_of_mem _ List.mem_cons_self)),
    hnothing]

theorem writtenName_bound (h : bindings.lookup (String.ofList n.text) = some (.float v)) :
    writtenName bindings n = Number.numberText v := by
  rw [writtenName, h]

theorem writtenName_functionName (h : bindings.lookup (String.ofList (functionName f).text) = none) :
    writtenName bindings (functionName f) = f.name.toList := by
  rw [writtenName, h]
  cases f <;> rfl

/-! ## Submitting a call -/

theorem opening_mem_callLine (f : Function) (n : Identifier) : '(' ∈ callLine f n :=
  List.mem_append_right _ List.mem_cons_self

theorem assignment?_callLine : assignment? (callLine f n) = none := by
  rw [Option.eq_none_iff_forall_ne_some]
  rintro ⟨name, value⟩ h
  obtain ⟨sign, word, _, _, hline, -, -, hrest, -⟩ := assignment?_parts h
  have hmem : '=' ∈ callLine f n := by
    have hword : '=' ∈ (word.dropWhile isNameChar).dropWhile Text.isPlainBlank :=
      hrest ▸ List.mem_cons_self
    rw [hline]
    exact List.mem_append_right _
      ((List.dropWhile_sublist _).subset ((List.dropWhile_sublist _).subset hword))
  rcases Query.mem_callLine hmem with h | h | h <;> cases h

theorem queryAnswer?_callLine (hf : f ∈ Function.standard) (hn : ¬Captured n.text) :
    queryAnswer? (callLine f n) = none := by
  rw [queryAnswer?]
  split
  · exact Query.resolve_callLine hf hn
  · rfl

theorem continuesLast_callLine : continuesLast (callLine f n) = false := by
  obtain ⟨c, t, hline, -⟩ := Query.exists_cons_callLine f n
  rw [hline]
  exact Query.isOperatorChar_of_mem_callLine c (hline ▸ List.mem_cons_self)

/-- A line that is taken for an expression leaves its value, or the last result as it was. -/
theorem value?_concludeExpression (h : Numeric s.bindings) {line : Text}
    (hline : continuesLast line = false) :
    (s.concludeExpression line).1.value? lastName =
      ((s.evaluate line).toOption.map Json.float).or (s.value? lastName) := by
  rw [concludeExpression, hline, if_neg Bool.false_ne_true]
  rcases evaluate_cases h line with ⟨x, hx, -⟩ | ⟨e, he⟩
  · rw [hx]
    exact (Json.lookup_setMember _).trans (if_pos rfl)
  · rw [he, mendLast_eq h]
    rfl

/-- A call with a name that is not captured is evaluated as an expression. -/
theorem value?_submit_callLine (h : Numeric s.bindings) (hf : f ∈ Function.standard)
    (hn : ¬Captured n.text) :
    (s.submit (String.ofList (callLine f n))).1.value? lastName =
      ((s.evaluate (callLine f n)).toOption.map Json.float).or (s.value? lastName) := by
  have hstrip : Text.strip (String.ofList (callLine f n)).toList = callLine f n := by
    rw [String.toList_ofList]
    exact Query.strip_eq_self Query.isBlank_of_mem_callLine
  have hne : callLine f n ≠ [] := List.ne_nil_of_mem (opening_mem_callLine f n)
  have hclear : callLine f n ≠ "clear".toList := by
    intro heq
    have hmem := opening_mem_callLine f n
    rw [heq] at hmem
    exact absurd hmem (by decide)
  rw [submit_eq_answerLine (by rwa [hstrip]) (by rwa [hstrip]) (by rw [hstrip, assignment?_callLine]),
    hstrip, answerLine, queryAnswer?_callLine hf hn]
  -- Entering a line leaves the variables, on which the value depends alone.
  set entered := { s.addHistory (String.ofList (callLine f n)) with inputValue := "" }
  have hnumeric : Numeric entered.bindings := h
  rw [value?_concludeExpression hnumeric continuesLast_callLine]
  rfl

/-! ## What a call comes to -/

theorem functionOf?_name (hf : f ∈ Function.standard) :
    functionOf? (functionName f).text = some f.apply := by
  have hfind : ∀ f ∈ Function.standard, (Function.standard.find? fun g =>
      g.name.toList == f.name.toList.map Char.toLower) = some f := by decide
  rw [functionOf?, Expression.standardTable, Expression.tableOf]
  exact congrArg (Option.map Function.apply) (hfind f hf)

/-- A call at a variable comes to the function of its number, if the function's name is no
variable. -/
theorem evaluate_callLine (h : AllFinite s.bindings) (hf : f ∈ Function.standard)
    (hfree : s.value? f.name = none) (hv : s.value? (String.ofList n.text) = some (.float v)) :
    s.evaluate (callLine f n) = (settle (f.apply (plainZero v))).mapError Failure.expression := by
  obtain ⟨_, rfl, hfinite⟩ : ∃ x, v = x ∧ x.isFinite = true := by
    obtain ⟨x, hx, hfinite⟩ := h.lookup hv
    exact ⟨x, Json.float.inj hx, hfinite⟩
  have hname : s.bindings.lookup (String.ofList (functionName f).text) = none := by
    rw [functionName, String.ofList_toList]
    exact hfree
  have hstands : Stands .sum (f.name.toList ++ '(' :: (Number.numberText v ++ [')']))
      (some (f.apply (plainZero v))) (Term.signDepth (plainZero v) + 5) :=
    (((stands_numberText hfinite).lower (Nat.zero_le _)).call (Query.name_ne_nil f)
      (Query.isLetter_name f) (functionOf?_name hf)).lower (Nat.zero_le _)
  have hdepth : Term.signDepth (plainZero v) + 5 ≤ Expression.nestingRoom := by
    rw [Term.signDepth]
    split <;> decide
  have hkept : ∀ c ∈ f.name.toList ++ '(' :: (Number.numberText v ++ [')']), isKept c = true := by
    refine List.forall_mem_append.mpr ⟨fun c hc => ?_, List.forall_mem_cons.mpr ⟨by decide, ?_⟩⟩
    · exact isKept_of_isNameChar (Query.isNameChar_name f c hc)
    · refine List.forall_mem_append.mpr ⟨fun c hc => ?_, List.forall_mem_singleton.mpr (by decide)⟩
      exact isKept_of_isTextChar ((Number.isNumberText_numberText v).chars c hc)
  simp only [evaluate, substitute_callLine h, writtenName_bound hv, writtenName_functionName hname,
    evaluate_of_stands hstands hdepth hkept, Option.elim]
  cases settle (f.apply (plainZero v)) <;> rfl

/-- What a call comes to depends on the number of the variable only. -/
theorem evaluate_callLine_congr (h : AllFinite s.bindings)
    (hv : s.value? (String.ofList n.text) = some (.float v))
    (hw : s.value? (String.ofList m.text) = some (.float w)) (heq : (v == w) = true)
    (f : Function) : s.evaluate (callLine f n) = s.evaluate (callLine f m) := by
  obtain ⟨_, hx, hvfinite⟩ := h.lookup hv
  cases hx
  obtain ⟨_, hy, hwfinite⟩ := h.lookup hw
  cases hy
  simp only [evaluate, substitute_callLine h, writtenName_bound hv, writtenName_bound hw,
    Number.numberText_congr hvfinite hwfinite heq]

theorem toOption_mapError {ε ε' α : Type} (g : ε → ε') (x : Except ε α) :
    (x.mapError g).toOption = x.toOption := by
  cases x <;> rfl

theorem Opens.allFinite (h : Opens limits s₀) (actions : List Action) :
    AllFinite (s₀.after actions).bindings := fun name j hmem =>
  (h.starts.safe.after actions).finite (h.named_after actions).distinct (name, j) hmem

/-- The last result that a call at a variable leaves is the function of the variable's number, if
there is one. -/
theorem Opens.value?_submit_callLine (h : Opens limits s₀) (actions : List Action)
    (hf : f ∈ Function.standard) (hn : ¬Captured n.text)
    (hv : (s₀.after actions).value? (String.ofList n.text) = some (.float v))
    (hfree : (s₀.after actions).value? f.name = none) :
    ((s₀.after actions).submit (String.ofList (callLine f n))).1.value? lastName =
      ((settle (f.apply (plainZero v))).toOption.map Json.float).or
        ((s₀.after actions).value? lastName) := by
  rw [Session.value?_submit_callLine (h.starts.safe.after actions).numeric hf hn,
    evaluate_callLine (h.allFinite actions) hf hfree hv, toOption_mapError]

/-- In every session that a user reaches, calls at two variables with the same number leave the
same last result, unless queries take one of the names for something else.  It is the function of
that number, if there is one, and if the name of the function is no variable. -/
theorem calls_of_equal_variables (h : Opens limits s₀) (actions : List Action)
    (hf : f ∈ Function.standard) (hn : ¬Captured n.text) (hm : ¬Captured m.text)
    (hv : (s₀.after actions).value? (String.ofList n.text) = some (.float v))
    (hw : (s₀.after actions).value? (String.ofList m.text) = some (.float w))
    (heq : (v == w) = true) :
    ((s₀.after actions).submit (String.ofList (callLine f n))).1.value? lastName =
        ((s₀.after actions).submit (String.ofList (callLine f m))).1.value? lastName ∧
      ((s₀.after actions).value? f.name = none →
        ((s₀.after actions).submit (String.ofList (callLine f n))).1.value? lastName =
          ((settle (f.apply (plainZero v))).toOption.map Json.float).or
            ((s₀.after actions).value? lastName)) := by
  refine ⟨?_, h.value?_submit_callLine actions hf hn hv⟩
  have hsafe := h.starts.safe.after actions
  rw [value?_submit_callLine hsafe.numeric hf hn, value?_submit_callLine hsafe.numeric hf hm,
    evaluate_callLine_congr (h.allFinite actions) hv hw heq]

/-! ## Names that are captured -/

/-- An answer to a query leaves its number. -/
theorem value?_submit_of_answer (s : Session) {raw : String} {answer : Text} {x : Float}
    (hline : Text.strip raw.toList ≠ []) (hclear : Text.strip raw.toList ≠ "clear".toList)
    (hassign : assignment? (Text.strip raw.toList) = none)
    (hanswer : queryAnswer? (Text.strip raw.toList) = some answer)
    (hnumber : finiteAnswer answer = .ok (some x)) :
    (s.submit raw).1.value? lastName = some (.float x) := by
  rw [submit_eq_answerLine hline hclear hassign]
  simp only [answerLine, hanswer, concludeAnswer, hnumber]
  exact (Json.lookup_setMember _).trans (if_pos rfl)

/-- The lines that set five names to five. -/
def fives : List Action :=
  [.submit "e = 5", .submit "abspi = 5", .submit "abs30degrees = 5", .submit "x = 5",
    .submit "y = 5"]

theorem bindings_fives :
    ((fresh ⟨9, 9, 9⟩).after fives).bindings = [("@", .float 5), ("e", .float 5),
      ("abspi", .float 5), ("abs30degrees", .float 5), ("x", .float 5), ("y", .float 5)] := by
  have hopens : Opens ⟨9, 9, 9⟩ (fresh ⟨9, 9, 9⟩) := .fresh
  have hraw : ∀ line ∈ ["e = 5", "abspi = 5", "abs30degrees = 5", "x = 5", "y = 5"],
      (Action.submit line).line? = some line := by decide
  have hline : ∀ name ∈ ["e", "abspi", "abs30degrees", "x", "y"],
      assignment? (name ++ " = 5").toList = some (name, "5".toList) := by decide
  have hfresh : ((fresh ⟨9, 9, 9⟩).after []).bindings = (fresh ⟨9, 9, 9⟩).bindings := rfl
  have hfirst := hopens.bindings_assign _ hfresh 5 (hraw "e = 5" (by decide))
    (hline "e" (by decide)) (by decide +kernel) (by decide)
  have hsecond := hopens.bindings_assign _ hfirst 5 (hraw "abspi = 5" (by decide))
    (hline "abspi" (by decide)) (by decide +kernel) (by decide)
  have hthird := hopens.bindings_assign _ hsecond 5 (hraw "abs30degrees = 5" (by decide))
    (hline "abs30degrees" (by decide)) (by decide +kernel) (by decide)
  have hfourth := hopens.bindings_assign _ hthird 5 (hraw "x = 5" (by decide))
    (hline "x" (by decide)) (by decide +kernel) (by decide)
  exact hopens.bindings_assign _ hfourth 5 (hraw "y = 5" (by decide))
    (hline "y" (by decide)) (by decide +kernel) (by decide)

theorem value?_fives : ∀ name ∈ ["e", "abspi", "abs30degrees", "x", "y"],
    ((fresh ⟨9, 9, 9⟩).after fives).value? name = some (.float 5) := by
  simp only [value?, bindings_fives, List.forall_mem_cons]
  exact ⟨rfl, rfl, rfl, rfl, rfl, List.forall_mem_nil _⟩

theorem value?_fives_absolute : ((fresh ⟨9, 9, 9⟩).after fives).value? "abs" = none := by
  rw [value?, bindings_fives]
  rfl

theorem settle_absolute : settle (Function.abs.apply (plainZero 5)) = .ok 5 := by
  decide +kernel

/-- A name of one letter. -/
def letterName (c : Char) (hc : c.isAlpha = true) : Identifier where
  text := [c]
  head := ⟨c, [], rfl, by simp [isNameStart, hc]⟩
  chars := by simp [isNameChar, Char.isAlphanum, hc]

/-- Two of the names are not captured. -/
theorem calls_of_equal_variables_absolute :
    ¬Captured "x".toList ∧ ¬Captured "y".toList ∧
      (((fresh ⟨9, 9, 9⟩).after fives).submit "abs(x)").1.value? lastName =
        (((fresh ⟨9, 9, 9⟩).after fives).submit "abs(y)").1.value? lastName ∧
      (((fresh ⟨9, 9, 9⟩).after fives).submit "abs(x)").1.value? lastName = some (.float 5) := by
  have hx : ¬Captured "x".toList := Query.not_captured_of_short (by decide) (by decide)
  have hy : ¬Captured "y".toList := Query.not_captured_of_short (by decide) (by decide)
  obtain ⟨hequal, hnumber⟩ := @calls_of_equal_variables _ _ .abs (letterName 'x' rfl)
    (letterName 'y' rfl) _ _ .fresh fives (by decide) hx hy (value?_fives "x" (by decide))
    (value?_fives "y" (by decide)) (by decide)
  have hresult := hnumber value?_fives_absolute
  rw [settle_absolute] at hresult
  exact ⟨hx, hy, hequal, hresult⟩

/-- The other names are captured: the name of a constant, and the name of a function with a constant
or with degrees behind it.  Calls at them leave other numbers than the call at `y`, which is no name
of a constant, of a unit or of a function, whatever its case. -/
theorem calls_of_captured_names :
    (∀ name ∈ ["e", "abspi", "abs30degrees", "x", "y"],
      ((fresh ⟨9, 9, 9⟩).after fives).value? name = some (.float 5)) ∧
    (∀ name ∈ Constant.all.map Prod.fst ++ Measure.allNames ++ Function.extended.map Function.name,
      Text.sameLetters "y".toList name.toList = false) ∧
    ∀ line ∈ ["abs(e)", "abs(abspi)", "abs(abs30degrees)"],
      (((fresh ⟨9, 9, 9⟩).after fives).submit line).1.value? lastName ≠
        (((fresh ⟨9, 9, 9⟩).after fives).submit "abs(y)").1.value? lastName := by
  have hnames : (Constant.all.map Prod.fst ++ Measure.allNames ++
      Function.extended.map Function.name).all
        (fun name => !Text.sameLetters "y".toList name.toList) = true := by decide +kernel
  refine ⟨value?_fives, by simpa using List.all_eq_true.mp hnames, ?_⟩
  have hy : ¬Captured "y".toList := Query.not_captured_of_short (by decide) (by decide)
  have hresult := @Opens.value?_submit_callLine _ _ .abs (letterName 'y' rfl) _ .fresh fives
    (by decide) hy (value?_fives "y" (by decide)) value?_fives_absolute
  rw [settle_absolute] at hresult
  have hfive : (((fresh ⟨9, 9, 9⟩).after fives).submit "abs(y)").1.value? lastName =
      some (.float 5) := hresult
  have hanswers : queryAnswer? "abs(e)".toList = some "2.718282".toList ∧
      queryAnswer? "abs(abspi)".toList = some "3.141593".toList ∧
      queryAnswer? "abs(abs30degrees)".toList = some "0.523599".toList := by decide +kernel
  have hnumbers : finiteAnswer "2.718282".toList = .ok (some 2.718282) ∧
      finiteAnswer "3.141593".toList = .ok (some 3.141593) ∧
      finiteAnswer "0.523599".toList = .ok (some 0.523599) := by decide +kernel
  have hlines : ∀ line ∈ ["abs(e)", "abs(abspi)", "abs(abs30degrees)"],
      Text.strip line.toList = line.toList ∧ line.toList ≠ [] ∧ line.toList ≠ "clear".toList ∧
        assignment? line.toList = none := by decide
  have hdiffers {line : String} (hline : line ∈ ["abs(e)", "abs(abspi)", "abs(abs30degrees)"])
      {answer : Text} {x : Float} (hanswer : queryAnswer? line.toList = some answer)
      (hnumber : finiteAnswer answer = .ok (some x)) (hx : x ≠ 5) :
      (((fresh ⟨9, 9, 9⟩).after fives).submit line).1.value? lastName ≠
        (((fresh ⟨9, 9, 9⟩).after fives).submit "abs(y)").1.value? lastName := by
    obtain ⟨hstrip, hne, hclear, hassign⟩ := hlines line hline
    rw [← hstrip] at hne hclear hassign hanswer
    rw [value?_submit_of_answer _ hne hclear hassign hanswer hnumber, hfive]
    exact fun heq => hx (Json.float.inj (Option.some.inj heq))
  simp only [List.forall_mem_cons]
  exact ⟨hdiffers (by decide) hanswers.1 hnumbers.1 (by decide),
    hdiffers (by decide) hanswers.2.1 hnumbers.2.1 (by decide),
    hdiffers (by decide) hanswers.2.2 hnumbers.2.2 (by decide), List.forall_mem_nil _⟩

end DeskCalc.Session
