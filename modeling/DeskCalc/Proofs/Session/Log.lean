import DeskCalc.Proofs.Session.Safety
import Mathlib.Data.List.DropRight

/-!
# The history, the log and the cursor of a run

What a session keeps of its past can be read off from the actions and what was shown for them.
Only what came after the last `clear` counts.  Every line entered since then has one entry, the
history and the log are the last ones of both, and the cursor walks through the history from its
end since the last line was entered.
-/

namespace DeskCalc

namespace Action

/-- The line that an action enters: what is submitted without the blanks around it, unless nothing
is left. -/
def line? : Action → Option String
  | .submit raw =>
    let line := Text.strip raw.toList
    if line.isEmpty then none else some (String.ofList line)
  | .older => none
  | .newer => none

/-- The place among `size` lines after an action that enters no line.  At both ends the cursor stays
where it is. -/
def walk (size place : Nat) : Action → Nat
  | .submit _ => place
  | .older => place - 1
  | .newer => min (place + 1) size

/-- The actions since a line was entered last. -/
def sinceLine (actions : List Action) : List Action :=
  actions.rtakeWhile fun a => a.line?.isNone

end Action

/-- The entry that is shown, if there is one. -/
def Shown.logged? : Shown → Option Entry
  | .entry (.ok e) => e
  | .entry (.error _) => none
  | .recalled _ => none

namespace Session

open DeskCalc.Action (sinceLine)

/-- The actions of a run, each with what was shown for it. -/
def record (s : Session) (actions : List Action) : List (Action × Shown) :=
  actions.zip (s.shown actions)

/-- The part of a record behind the last `clear`. -/
def sinceClear (steps : List (Action × Shown)) : List (Action × Shown) :=
  steps.rtakeWhile fun step => step.1.line? ≠ some "clear"

/-- The lines that were entered. -/
def linesOf (steps : List (Action × Shown)) : List String :=
  steps.filterMap fun step => step.1.line?

/-- The entries that were shown. -/
def entriesOf (steps : List (Action × Shown)) : List Entry :=
  steps.filterMap fun step => step.2.logged?

variable {limits : Limits} {s : Session}

/-! ## Submitting a line -/

/-- Submitting has given one entry for the line and logged it, and has left the history alone. -/
structure Logs (s : Session) (line : String) (r : Submitted) (e : Entry) : Prop where
  given : r.2 = .ok (some e)
  input : e.input = line
  results : r.1.results = lastOf s.limits.results (s.results ++ [e])
  history : r.1.history = s.history
  cursor : r.1.cursor = s.cursor

theorem logs_assignAnswer (line name : String) {query answer : Text}
    (hanswer : queryAnswer? query = some answer) :
    ∃ e, Logs s line (s.assignAnswer line name answer) e := by
  obtain ⟨number, hnumber, -⟩ := finiteAnswer_of_queryAnswer? hanswer
  rw [Session.assignAnswer, hnumber]
  cases number <;> exact ⟨_, rfl, rfl, rfl, rfl, rfl⟩

theorem Safe.logs_assignValue (h : Safe limits s) (line name : String) (expression : Text) :
    ∃ e, Logs s line (s.assignValue line name expression) e := by
  rw [Session.assignValue]
  rcases evaluate_cases h.numeric expression with ⟨x, hx, -⟩ | ⟨e, he⟩
  · rw [hx]
    exact ⟨_, rfl, rfl, rfl, rfl, rfl⟩
  · rw [he]
    exact ⟨_, rfl, rfl, rfl, rfl, rfl⟩

/-- A line is no assignment and changes nothing yet, or it is one and gives its entry. -/
theorem Safe.assign_cases (h : Safe limits s) (line : Text) :
    s.assign line = (s, .ok none) ∨ ∃ e, Logs s (String.ofList line) (s.assign line) e := by
  rw [Session.assign]
  split
  · exact .inl rfl
  · right
    split
    next hanswer => exact logs_assignAnswer _ _ hanswer
    · exact h.logs_assignValue _ _ _

theorem logs_concludeAnswer (line : String) {query answer : Text}
    (hanswer : queryAnswer? query = some answer) :
    ∃ e, Logs s line (s.concludeAnswer line answer) e := by
  obtain ⟨number, hnumber, -⟩ := finiteAnswer_of_queryAnswer? hanswer
  rw [Session.concludeAnswer, hnumber]
  exact ⟨_, rfl, rfl, rfl, rfl, rfl⟩

theorem Safe.logs_concludeExpression (h : Safe limits s) (line : Text) :
    ∃ e, Logs s (String.ofList line) (s.concludeExpression line) e := by
  rw [Session.concludeExpression]
  rcases evaluate_cases h.numeric (if continuesLast line then '@' :: line else line) with
    ⟨x, hx, -⟩ | ⟨e, he⟩
  · rw [hx]
    exact ⟨_, rfl, rfl, rfl, rfl, rfl⟩
  · rw [he]
    simp only [mendLast_eq h.numeric]
    exact ⟨_, rfl, rfl, rfl, rfl, rfl⟩

theorem Safe.logs_answerLine (h : Safe limits s) (line : Text) :
    ∃ e, Logs s (String.ofList line) (s.answerLine line) e := by
  rw [Session.answerLine]
  split
  next hanswer => exact logs_concludeAnswer _ hanswer
  · exact h.logs_concludeExpression line

/-- A line was entered: it is the last one of the history, its entry is the last one of the log, and
the cursor stands behind it. -/
structure Enters (s : Session) (line : String) (r : Submitted) (e : Entry) : Prop where
  given : r.2 = .ok (some e)
  input : e.input = line
  results : r.1.results = lastOf s.limits.results (s.results ++ [e])
  history : r.1.history = lastOf s.limits.history (s.history ++ [line])
  cursor : r.1.cursor = .at r.1.history.length

/-- What a line is, given what an action enters. -/
theorem strip_of_line? {raw line : String} (h : (Action.submit raw).line? = some line) :
    Text.strip raw.toList = line.toList ∧ line.toList.isEmpty = false := by
  rw [Action.line?] at h
  split at h
  · cases h
  next hne =>
    rw [← Option.some.inj h, String.toList_ofList]
    exact ⟨rfl, by simpa using hne⟩

theorem submit_blank {raw : String} (h : (Action.submit raw).line? = none) :
    s.submit raw = (s, .ok none) := by
  have hblank : (Text.strip raw.toList).isEmpty = true := by
    by_contra hne
    simp [Action.line?, hne] at h
  simp only [Session.submit, hblank, if_true]

theorem submit_clear {raw : String} (h : (Action.submit raw).line? = some "clear") :
    s.submit raw = (fresh s.limits, .ok none) := by
  simp only [Session.submit, (strip_of_line? h).1, if_true]
  rfl

theorem Safe.enters_submit (h : Safe limits s) {raw line : String}
    (hraw : (Action.submit raw).line? = some line) (hline : line ≠ "clear") :
    ∃ e, Enters s line (s.submit raw) e := by
  obtain ⟨hstrip, hne⟩ := strip_of_line? hraw
  have hclear : line.toList ≠ "clear".toList := fun heq => hline (String.toList_inj.mp heq)
  have hentered : Safe limits { s.addHistory line with inputValue := "" } :=
    { h.addHistory line with }
  simp only [Session.submit, hstrip, hne, Bool.false_eq_true, if_false, if_neg hclear,
    String.ofList_toList]
  rcases hentered.assign_cases line.toList with hnone | ⟨e, hlogs⟩
  · obtain ⟨e, hlogs⟩ := hentered.logs_answerLine line.toList
    rw [String.ofList_toList] at hlogs
    rw [hnone]
    refine ⟨e, hlogs.given, hlogs.input, hlogs.results, hlogs.history, ?_⟩
    rw [hlogs.cursor, hlogs.history]
    rfl
  · rw [String.ofList_toList] at hlogs
    cases hassigned : Session.assign { s.addHistory line with inputValue := "" } line.toList with
    | mk t r =>
      rw [hassigned] at hlogs
      obtain rfl : r = .ok (some e) := hlogs.given
      have hhistory : t.history = lastOf s.limits.history (s.history ++ [line]) := hlogs.history
      have hcursor : t.cursor = .at t.history.length := by
        rw [hhistory]
        exact hlogs.cursor
      exact ⟨e, rfl, hlogs.input, hlogs.results, hhistory, hcursor⟩

/-! ## Moving the cursor -/

/-- A move recalls the line at a place of the history, or the empty one behind the last, and
changes nothing but the cursor and the input. -/
structure Recalls (s : Session) (place : Nat) (r : Session × Shown) : Prop where
  place_le : place ≤ s.history.length
  shown : r.2 = .recalled (s.history.getD place "")
  session : r.1 = { s with cursor := .at place, inputValue := s.history.getD place "" }

theorem navigate_eq (h : s.history ≠ []) (step : Int) (place : Nat)
    (hplace : min (max (s.cursor.place + step) 0) s.history.length = place) :
    s.navigate step =
      ({ s with cursor := .at place, inputValue := s.history.getD place "" },
        s.history.getD place "") := by
  simp only [navigate, List.isEmpty_eq_false_iff.mpr h, Bool.false_eq_true, if_false, hplace,
    Int.toNat_natCast, List.getD_eq_getElem?_getD]

/-- Without a history a move changes nothing. -/
theorem act_of_history_eq_nil {a : Action} (ha : a = .older ∨ a = .newer) (h : s.history = []) :
    (s.act a).1 = s := by
  have hmove (step : Int) : (s.navigate step).1 = s := by
    rw [navigate, h]
    rfl
  rcases ha with rfl | rfl
  · exact hmove _
  · exact hmove _

/-- With a history a move walks to the next place and recalls the line there. -/
theorem recalls_act {a : Action} (ha : a = .older ∨ a = .newer) (h : s.history ≠ []) {place : Nat}
    (hcursor : s.cursor = .at place) (hplace : place ≤ s.history.length) :
    Recalls s (a.walk s.history.length place) (s.act a) := by
  have hat : s.cursor.place = place := by rw [hcursor, Mark.place]
  rcases ha with rfl | rfl
  · have hmove := navigate_eq h (-1) (place - 1) (by omega)
    exact ⟨(Nat.sub_le place 1).trans hplace, by simp only [act, hmove, Action.walk],
      by simp only [act, hmove, Action.walk]⟩
  · have hmove := navigate_eq h 1 (min (place + 1) s.history.length) (by omega)
    exact ⟨Nat.min_le_right _ _, by simp only [act, hmove, Action.walk],
      by simp only [act, hmove, Action.walk]⟩

/-! ## The record of a run -/

theorem length_shown (actions : List Action) : (s.shown actions).length = actions.length := by
  induction actions generalizing s with
  | nil => rfl
  | cons a actions ih => exact congrArg (· + 1) ih

theorem record_concat (actions : List Action) (a : Action) :
    s.record (actions ++ [a]) = s.record actions ++ [(a, ((s.after actions).act a).2)] := by
  rw [record, shown_append, List.zip_append (length_shown actions).symm]
  rfl

theorem lastOf_concat {α : Type} (n : Nat) (xs : List α) (x : α) :
    lastOf n (lastOf n xs ++ [x]) = lastOf n (xs ++ [x]) := by
  simp only [lastOf, List.drop_append, List.drop_drop, List.length_append, List.length_drop,
    List.length_singleton]
  congr 2 <;> omega

/-- What a session keeps of a row of steps and of the actions since a line was entered. -/
structure Keeps (limits : Limits) (steps : List (Action × Shown)) (moves : List Action)
    (s : Session) : Prop where
  history : s.history = lastOf limits.history (linesOf steps)
  results : s.results = lastOf limits.results (entriesOf steps)
  inputs : (entriesOf steps).map Entry.input = linesOf steps
  cursor : s.cursor =
    .at ((moves.foldl (Action.walk s.history.length) s.history.length : Nat) : Int)

/-- The walk does not leave the history. -/
theorem foldl_walk_le (moves : List Action) {size place : Nat} (h : place ≤ size) :
    moves.foldl (Action.walk size) place ≤ size := by
  induction moves generalizing place with
  | nil => exact h
  | cons a moves ih =>
    refine ih ?_
    cases a <;> simp only [Action.walk] <;> omega

theorem keeps_fresh (limits : Limits) : Keeps limits [] [] (fresh limits) where
  history := List.drop_nil.symm
  results := List.drop_nil.symm
  inputs := rfl
  cursor := rfl

variable {steps : List (Action × Shown)} {moves : List Action}

@[simp] theorem linesOf_concat (step : Action × Shown) :
    linesOf (steps ++ [step]) = linesOf steps ++ step.1.line?.toList := by
  rw [linesOf, List.filterMap_append]
  cases h : step.1.line? <;> simp [linesOf, h]

@[simp] theorem entriesOf_concat (step : Action × Shown) :
    entriesOf (steps ++ [step]) = entriesOf steps ++ step.2.logged?.toList := by
  rw [entriesOf, List.filterMap_append]
  cases h : step.2.logged? <;> simp [entriesOf, h]

theorem sinceClear_concat (step : Action × Shown) :
    sinceClear (steps ++ [step]) =
      if step.1.line? = some "clear" then [] else sinceClear steps ++ [step] := by
  rw [sinceClear, List.rtakeWhile_concat]
  by_cases h : step.1.line? = some "clear" <;> simp [sinceClear, h]

theorem sinceLine_concat (actions : List Action) (a : Action) :
    sinceLine (actions ++ [a]) = if a.line? = none then sinceLine actions ++ [a] else [] := by
  rw [sinceLine, List.rtakeWhile_concat]
  by_cases h : a.line? = none <;> simp [sinceLine, h]

/-- A new line is added to what is kept, and the walk begins again. -/
theorem Keeps.enters (h : Keeps limits steps moves s) (hlimits : s.limits = limits) {a : Action}
    {line : String} (hline : a.line? = some line) {r : Submitted} {e : Entry}
    (hr : Enters s line r e) : Keeps limits (steps ++ [(a, .entry r.2)]) [] r.1 where
  history := by
    rw [hr.history, h.history, hlimits, lastOf_concat, linesOf_concat, hline]
    rfl
  results := by
    rw [hr.results, h.results, hlimits, lastOf_concat, entriesOf_concat, hr.given]
    rfl
  inputs := by
    rw [entriesOf_concat, linesOf_concat, List.map_append, h.inputs, hline, hr.given]
    exact congrArg (linesOf steps ++ [·]) hr.input
  cursor := hr.cursor

/-- A step that enters nothing and shows no entry leaves what is kept, and walks. -/
theorem Keeps.walks (h : Keeps limits steps moves s) {step : Action × Shown} {t : Session}
    (hline : step.1.line? = none) (hentry : step.2.logged? = none)
    (hhistory : t.history = s.history) (hresults : t.results = s.results)
    (hcursor : t.cursor = .at ((step.1.walk s.history.length
      (moves.foldl (Action.walk s.history.length) s.history.length) : Nat) : Int)) :
    Keeps limits (steps ++ [step]) (moves ++ [step.1]) t where
  history := by rw [linesOf_concat, hline, hhistory, h.history]; simp
  results := by rw [entriesOf_concat, hentry, hresults, h.results]; simp
  inputs := by rw [linesOf_concat, entriesOf_concat, hline, hentry]; simp [h.inputs]
  cursor := by rw [hhistory, List.foldl_append, hcursor]; rfl

theorem Keeps.move (h : Keeps limits steps moves s) {a : Action} (ha : a = .older ∨ a = .newer) :
    Keeps limits (steps ++ [(a, (s.act a).2)]) (moves ++ [a]) (s.act a).1 := by
  have hline : a.line? = none := by rcases ha with rfl | rfl <;> rfl
  have hentry : (s.act a).2.logged? = none := by rcases ha with rfl | rfl <;> rfl
  by_cases hnil : s.history = []
  · have hstay := act_of_history_eq_nil ha hnil
    refine h.walks hline hentry (by rw [hstay]) (by rw [hstay]) ?_
    have hzero := foldl_walk_le (moves ++ [a]) s.history.length.le_refl
    have hbefore := foldl_walk_le moves s.history.length.le_refl
    rw [List.foldl_append] at hzero
    rw [hstay, h.cursor]
    congr 2
    have : s.history.length = 0 := by rw [hnil]; rfl
    simp only [List.foldl_cons, List.foldl_nil] at hzero ⊢
    omega
  · have hr := recalls_act ha hnil h.cursor (foldl_walk_le moves le_rfl)
    have hsession := hr.session
    exact h.walks hline hentry (by rw [hsession]) (by rw [hsession]) (by rw [hsession])

/-- What one action does to what is kept since the last `clear`. -/
theorem Keeps.act {actions : List Action} (hsafe : Safe limits s)
    (h : Keeps limits (sinceClear steps) (sinceLine actions) s) (a : Action) :
    Keeps limits (sinceClear (steps ++ [(a, (s.act a).2)])) (sinceLine (actions ++ [a]))
      (s.act a).1 := by
  rw [sinceClear_concat, sinceLine_concat]
  cases a with
  | older => exact h.move (.inl rfl)
  | newer => exact h.move (.inr rfl)
  | submit raw =>
    cases hline : (Action.submit raw).line? with
    | none =>
      simp only [Session.act, submit_blank hline]
      exact h.walks hline rfl rfl rfl h.cursor
    | some line =>
      by_cases hclear : line = "clear"
      · subst hclear
        simp only [Session.act, submit_clear hline, hsafe.limits_eq, if_true]
        exact keeps_fresh limits
      · obtain ⟨e, he⟩ := hsafe.enters_submit hline hclear
        simp only [Option.some.injEq, hclear, if_false, reduceCtorEq]
        exact h.enters hsafe.limits_eq hline he

theorem keeps_run (limits : Limits) (actions : List Action) :
    Keeps limits (sinceClear ((fresh limits).record actions)) (sinceLine actions)
      ((fresh limits).after actions) := by
  induction actions using List.reverseRecOn with
  | nil => exact keeps_fresh limits
  | append_singleton actions a ih =>
    rw [record_concat, after_append]
    exact ih.act ((safe_fresh limits).after actions) a

/-- However lines and moves follow each other in a session that began fresh: the history and the log
are the last ones of the lines entered since the last `clear` and of the entries shown for them,
one for each line and in their order; the cursor has walked from the end of the history since the
last line was entered, and stopped at both ends; a move recalls the line at its new place and
changes nothing else; and `clear` makes the session fresh. -/
theorem log_of_run (limits : Limits) (actions : List Action) :
    let s := (fresh limits).after actions
    let recent := sinceClear ((fresh limits).record actions)
    let walk := Action.walk s.history.length
    let place := (sinceLine actions).foldl walk s.history.length
    s.history = lastOf limits.history (linesOf recent) ∧
    s.results = lastOf limits.results (entriesOf recent) ∧
    (entriesOf recent).map Entry.input = linesOf recent ∧
    s.cursor = .at place ∧ place ≤ s.history.length ∧
    (∀ a, a = .older ∨ a = .newer → s.history ≠ [] → Recalls s (walk place a) (s.act a)) ∧
    (∀ raw, (Action.submit raw).line? = some "clear" → (s.act (.submit raw)).1 = fresh limits) := by
  intro s recent walk place
  have hkeeps : Keeps limits recent (sinceLine actions) s := keeps_run limits actions
  have hplace : place ≤ s.history.length := foldl_walk_le _ le_rfl
  have hlimits : s.limits = limits := ((safe_fresh limits).after actions).limits_eq
  refine ⟨hkeeps.history, hkeeps.results, hkeeps.inputs, hkeeps.cursor, hplace, ?_, ?_⟩
  · intro a ha hne
    exact recalls_act ha hne hkeeps.cursor hplace
  · intro raw hclear
    rw [← hlimits]
    exact congrArg Prod.fst (submit_clear hclear)

/-- A history of two lines: the third line drops the first one, and of three steps back the last
one stays at the oldest line. -/
theorem log_of_run_capped :
    let s := (fresh ⟨2, 0, 1⟩).after
      [.submit "clear", .submit " a ", .submit " ", .submit "b", .submit "c", .older, .older, .older]
    s.history = ["b", "c"] ∧ s.results.map Entry.input = ["c"] ∧ s.cursor = .at 0 ∧
      (s.act .newer).2 = .recalled "c" ∧ (s.act (.submit "clear ")).1 = fresh ⟨2, 0, 1⟩ := by
  intro s
  obtain ⟨hhistory, hresults, hinputs, hcursor, -, hmove, hclear⟩ := log_of_run ⟨2, 0, 1⟩
    [.submit "clear", .submit " a ", .submit " ", .submit "b", .submit "c", .older, .older, .older]
  have hlines : linesOf (sinceClear ((fresh ⟨2, 0, 1⟩).record
      [.submit "clear", .submit " a ", .submit " ", .submit "b", .submit "c", .older, .older,
        .older])) = ["a", "b", "c"] := rfl
  have hmoves : sinceLine
      [.submit "clear", .submit " a ", .submit " ", .submit "b", .submit "c", .older, .older,
        .older] = [.older, .older, .older] := rfl
  have hbc : s.history = ["b", "c"] := hhistory.trans (congrArg (lastOf 2) hlines)
  rw [hmoves, show Session.after _ _ = s from rfl, hbc] at hcursor hmove
  refine ⟨hbc, ?_, hcursor, ?_, hclear _ rfl⟩
  · rw [show s.results = _ from hresults, lastOf, List.map_drop, ← List.length_map Entry.input,
      hinputs, hlines]
    rfl
  · have hnewer := (hmove .newer (.inr rfl) (List.cons_ne_nil _ _)).shown
    rw [hbc] at hnewer
    exact hnewer

end Session
end DeskCalc
