import DeskCalc.Proofs.Attempt
import DeskCalc.Proofs.Json.Members
import DeskCalc.Proofs.Expression.Settling
import DeskCalc.Proofs.Query.Rules
import DeskCalc.Proofs.Session.Run

/-!
# Safety of sessions

In every session that can be reached the variables are finite doubles, the last result is one of
them, and the history, the log and the cursor stay within their bounds.  While this holds no line
breaks off, because a line can only do so on a variable that is no number or on an answer that
cannot be searched.
-/

namespace DeskCalc.Session

open Json (lookup_setMember mem_setMember mem_of_lookup)

/-! ## Variables that are finite doubles -/

/-- A document that is a finite double. -/
def IsFiniteFloat (j : Json) : Prop :=
  ∃ x : Float, j = .float x ∧ x.isFinite = true

/-- Variables that are finite doubles, with a last result among them. -/
structure Numeric (bindings : List (String × Json)) : Prop where
  last : ∃ x : Float, bindings.lookup lastName = some (.float x) ∧ x.isFinite = true
  others : ∀ name j, (name, j) ∈ bindings → name ≠ lastName → IsFiniteFloat j

variable {bindings : List (String × Json)}

theorem Numeric.lookup (h : Numeric bindings) {name : String} {j : Json}
    (hj : bindings.lookup name = some j) : IsFiniteFloat j := by
  by_cases hname : name = lastName
  · obtain ⟨x, hx, hfinite⟩ := h.last
    rw [hname, hx] at hj
    cases hj
    exact ⟨x, rfl, hfinite⟩
  · exact h.others name j (mem_of_lookup hj) hname

theorem Numeric.setMember (h : Numeric bindings) (name : String) {x : Float}
    (hx : x.isFinite = true) : Numeric (Json.setMember name (.float x) bindings) where
  last := by
    rw [lookup_setMember]
    split
    · exact ⟨x, rfl, hx⟩
    · exact h.last
  others := by
    intro n j hmem hn
    rcases mem_setMember hmem with heq | hmem
    · cases heq
      exact ⟨x, rfl, hx⟩
    · exact h.others n j hmem hn

/-- Setting the last result mends it. -/
theorem numeric_setLast (h : ∀ name j, (name, j) ∈ bindings → name ≠ lastName → IsFiniteFloat j)
    {x : Float} (hx : x.isFinite = true) :
    Numeric (Json.setMember lastName (.float x) bindings) where
  last := ⟨x, by rw [lookup_setMember, if_pos rfl], hx⟩
  others := by
    intro n j hmem hn
    rcases mem_setMember hmem with heq | hmem
    · cases heq
      exact ⟨x, rfl, hx⟩
    · exact h n j hmem hn

theorem numeric_fresh : Numeric [(lastName, .float 0)] where
  last := ⟨0, rfl, Number.isFinite_zero⟩
  others := by
    intro name j hmem hname
    cases List.mem_singleton.mp hmem
    exact absurd rfl hname

/-! ## Expressions with variables -/

theorem lastText_ok (h : Numeric bindings) : ∃ t, lastText bindings = .ok t := by
  obtain ⟨x, hx, -⟩ := h.last
  refine ⟨if x.isFinite then Number.numberText x else ['0'], ?_⟩
  rw [lastText, show bindings.lookup "@" = some (.float x) from hx]
  rfl

theorem replaceVariables_ok (h : Numeric bindings) (s : Text) (names : List String) :
    ∃ t, replaceVariables bindings s names = .ok t := by
  induction names generalizing s with
  | nil => exact ⟨s, rfl⟩
  | cons name names ih =>
    rw [replaceVariables]
    cases hj : bindings.lookup name with
    | none => exact ih s
    | some j =>
      obtain ⟨x, rfl, -⟩ := h.lookup hj
      exact ih _

theorem substitute_ok (h : Numeric bindings) (s : Text) : ∃ t, substitute bindings s = .ok t :=
  exists_ok_bind (lastText_ok h) fun _ =>
    exists_ok_bind (replaceVariables_ok h _ _) fun _ => ⟨_, rfl⟩

variable {limits : Limits} {s : Session}

/-- An expression has a finite value, or is at fault itself. -/
theorem evaluate_cases (h : Numeric s.bindings) (expression : Text) :
    (∃ x, s.evaluate expression = .ok x ∧ x.isFinite = true) ∨
      ∃ e, s.evaluate expression = .error (.expression e) := by
  obtain ⟨prepared, hprepared⟩ := substitute_ok h expression
  cases hvalue : Expression.evaluate prepared with
  | error e =>
    right
    refine ⟨e, ?_⟩
    simp only [evaluate, hprepared, hvalue]
  | ok x =>
    left
    refine ⟨x, ?_, ?_⟩
    · simp only [evaluate, hprepared, hvalue]
    · rw [Expression.evaluate, Expression.evaluateWith] at hvalue
      cases hvalueOf : Expression.valueOf Expression.standardTable (Expression.prepare prepared) with
      | error e =>
        rw [hvalueOf] at hvalue
        cases hvalue
      | ok y =>
        rw [hvalueOf] at hvalue
        exact Expression.isFinite_settle hvalue

theorem mendLast_eq (h : Numeric s.bindings) : s.mendLast = .ok s := by
  obtain ⟨x, hx, hfinite⟩ := h.last
  have hvalue : s.value? lastName = some (.float x) := hx
  rw [mendLast, hvalue]
  simp only [Option.getD_some, Json.isFiniteNumber, hfinite]

/-! ## Safe sessions -/

/-- The variables are finite doubles, and everything else is within its bounds. -/
structure Safe (limits : Limits) (s : Session) : Prop where
  limits_eq : s.limits = limits
  numeric : Numeric s.bindings
  history : s.history.length ≤ limits.history
  results : s.results.length ≤ limits.results
  cursor : 0 ≤ s.cursor.place ∧ s.cursor.place ≤ s.history.length

theorem length_lastOf {α : Type} (n : Nat) (xs : List α) : (lastOf n xs).length ≤ n := by
  rw [lastOf, List.length_drop]
  omega

theorem safe_fresh (limits : Limits) : Safe limits (fresh limits) where
  limits_eq := rfl
  numeric := numeric_fresh
  history := Nat.zero_le _
  results := Nat.zero_le _
  cursor := ⟨le_rfl, le_rfl⟩

theorem Safe.setVariable (h : Safe limits s) (name : String) {x : Float}
    (hx : x.isFinite = true) : Safe limits (s.setVariable name (.float x)) :=
  { h with numeric := h.numeric.setMember name hx }

theorem Safe.setLast (h : Safe limits s) {x : Float} (hx : x.isFinite = true) :
    Safe limits (s.setLast x) :=
  h.setVariable lastName hx

theorem Safe.addResult (h : Safe limits s) (e : Entry) : Safe limits (s.addResult e) :=
  { h with results := h.limits_eq ▸ length_lastOf _ _ }

theorem Safe.addHistory (h : Safe limits s) (line : String) : Safe limits (s.addHistory line) :=
  { h with
    history := h.limits_eq ▸ length_lastOf _ _
    cursor := ⟨Int.natCast_nonneg _, le_rfl⟩ }

theorem Safe.limitVariables (h : Safe limits s) : Safe limits s.limitVariables := by
  have hkeep (v : Json) : (fun w : String × Json =>
      !(s.sortedNames.take (s.sortedNames.length - s.limits.bindings)).contains w.1)
        (lastName, v) = true := by
    have hnot : lastName ∉ s.sortedNames := by
      rw [sortedNames, List.mem_mergeSort, names]
      simp
    simpa using fun hmem => hnot (List.mem_of_mem_take hmem)
  refine { h with numeric := ⟨?_, ?_⟩ }
  · rw [Session.limitVariables, Json.lookup_filter hkeep]
    exact h.numeric.last
  · intro name j hmem
    exact h.numeric.others name j (List.mem_of_mem_filter hmem)

theorem Safe.navigate (h : Safe limits s) (step : Int) : Safe limits (s.navigate step).1 := by
  rw [Session.navigate]
  split
  · exact h
  · exact { h with cursor := by simp only [Mark.place]; omega }

/-! ## Submitting lines -/

/-- Submitting leaves a safe session, and does not break off. -/
def Succeeds (limits : Limits) (r : Submitted) : Prop :=
  Safe limits r.1 ∧ ∃ e, r.2 = .ok e

theorem Safe.conclude (h : Safe limits s) (e : Entry) : Succeeds limits (s.conclude e) :=
  ⟨h.addResult e, some e, rfl⟩

theorem Safe.assignAnswer (h : Safe limits s) (line name : String) {query answer : Text}
    (hanswer : queryAnswer? query = some answer) :
    Succeeds limits (s.assignAnswer line name answer) := by
  obtain ⟨number, hnumber, hfinite⟩ := finiteAnswer_of_queryAnswer? hanswer
  rw [Session.assignAnswer, hnumber]
  cases number with
  | none => exact (h.setLast Number.isFinite_zero).conclude _
  | some x => exact ((h.setVariable name (hfinite x rfl)).setLast (hfinite x rfl)).conclude _

theorem Safe.assignValue (h : Safe limits s) (line name : String) (expression : Text) :
    Succeeds limits (s.assignValue line name expression) := by
  rw [Session.assignValue]
  rcases evaluate_cases h.numeric expression with ⟨x, hx, hfinite⟩ | ⟨e, he⟩
  · rw [hx]
    exact ((h.setVariable name hfinite).setLast hfinite).conclude _
  · rw [he]
    exact h.conclude _

theorem Safe.assign (h : Safe limits s) (line : Text) : Succeeds limits (s.assign line) := by
  rw [Session.assign]
  split
  · exact ⟨h, none, rfl⟩
  · split
    next hanswer => exact h.assignAnswer _ _ hanswer
    · exact h.assignValue _ _ _

theorem Safe.concludeAnswer (h : Safe limits s) (line : String) {query answer : Text}
    (hanswer : queryAnswer? query = some answer) :
    Succeeds limits (s.concludeAnswer line answer) := by
  obtain ⟨number, hnumber, hfinite⟩ := finiteAnswer_of_queryAnswer? hanswer
  rw [Session.concludeAnswer, hnumber]
  cases number with
  | none => exact (h.setLast Number.isFinite_zero).conclude _
  | some x => exact (h.setLast (hfinite x rfl)).conclude _

theorem Safe.concludeExpression (h : Safe limits s) (line : Text) :
    Succeeds limits (s.concludeExpression line) := by
  rw [Session.concludeExpression]
  rcases evaluate_cases h.numeric (if continuesLast line then '@' :: line else line) with
    ⟨x, hx, hfinite⟩ | ⟨e, he⟩
  · rw [hx]
    exact (h.setLast hfinite).conclude _
  · rw [he]
    simp only [mendLast_eq h.numeric]
    exact h.conclude _

theorem Safe.answerLine (h : Safe limits s) (line : Text) :
    Succeeds limits (s.answerLine line) := by
  rw [Session.answerLine]
  split
  next hanswer => exact h.concludeAnswer _ hanswer
  · exact h.concludeExpression line

theorem Safe.submit (h : Safe limits s) (raw : String) : Succeeds limits (s.submit raw) := by
  have hentered (line : Text) :
      Safe limits { s.addHistory (String.ofList line) with inputValue := "" } :=
    { h.addHistory (String.ofList line) with }
  simp only [Session.submit]
  split
  · exact ⟨h, none, rfl⟩
  · split
    · exact ⟨h.limits_eq ▸ safe_fresh s.limits, none, rfl⟩
    · have hassign := (hentered (Text.strip raw.toList)).assign (Text.strip raw.toList)
      split
      next heq =>
        rw [heq] at hassign
        exact ⟨hassign.1.limitVariables, _, rfl⟩
      next heq =>
        rw [heq] at hassign
        exact absurd hassign.2 nofun
      next heq =>
        rw [heq] at hassign
        exact hassign.1.answerLine _

/-! ## Whole runs -/

theorem Safe.act (h : Safe limits s) (a : Action) :
    Safe limits (s.act a).1 ∧ (s.act a).2.isWhole := by
  cases a with
  | submit line => exact h.submit line
  | older => exact ⟨h.navigate _, trivial⟩
  | newer => exact ⟨h.navigate _, trivial⟩

theorem Safe.after (h : Safe limits s) (actions : List Action) : Safe limits (s.after actions) :=
  after_induction (P := Safe limits) (fun _ a _ ht => (ht.act a).1) h

theorem Safe.shown (h : Safe limits s) (actions : List Action) :
    ∀ r ∈ s.shown actions, r.isWhole :=
  shown_induction (P := Safe limits) (fun _ a _ ht => ht.act a) h

/-- What every action of a row keeps in safe sessions holds after the row. -/
theorem Safe.after_induction {P : Session → Prop} (h : Safe limits s) {actions : List Action}
    (hstep : ∀ t, Safe limits t → ∀ a ∈ actions, P t → P (t.act a).1) (hs : P s) :
    P (s.after actions) := by
  have hboth : Safe limits (s.after actions) ∧ P (s.after actions) := by
    apply Session.after_induction (P := fun t => Safe limits t ∧ P t)
    · intro t a ha ht
      exact ⟨(ht.1.act a).1, hstep t ht.1 a ha ht.2⟩
    · exact ⟨h, hs⟩
  exact hboth.2

/-! ## Restored sessions -/

theorem numericVariables_finite {members : List (String × Json)}
    (h : numericVariables members = (bindings, none)) :
    ∀ name j, (name, j) ∈ bindings → name ≠ lastName → IsFiniteFloat j := by
  induction members generalizing bindings with
  | nil =>
    cases h
    exact nofun
  | cons m members ih =>
    obtain ⟨k, v⟩ := m
    obtain ⟨rest, fault, hrest⟩ : ∃ rest fault, numericVariables members = (rest, fault) :=
      ⟨_, _, rfl⟩
    rw [numericVariables, hrest] at h
    intro name j hmem hname
    split at h
    next hk =>
      cases h
      rcases List.mem_cons.mp hmem with heq | hmem
      · cases heq
        exact absurd hk hname
      · exact ih hrest name j hmem hname
    · split at h
      · cases h
      next x _ =>
        cases h
        split at hmem
        next hx =>
          rcases List.mem_cons.mp hmem with heq | hmem
          · cases heq
            exact ⟨x, rfl, hx⟩
          · exact ih hrest name j hmem hname
        · exact ih hrest name j hmem hname
      · cases h
        exact ih hrest name j hmem hname

theorem cleanLast_eq {t : Session} (h : s.cleanLast = (t, none)) :
    ∃ x : Float, x.isFinite = true ∧ t = s.setLast x := by
  rw [cleanLast] at h
  split at h
  · cases h
  next x _ =>
    cases h
    refine ⟨_, ?_, rfl⟩
    split
    next hx => exact hx
    · exact Number.isFinite_zero
  · cases h
    exact ⟨0, Number.isFinite_zero, rfl⟩

theorem numeric_cleanVariables {t : Session} (h : s.cleanVariables = (t, none)) :
    ∃ bindings, Numeric bindings ∧ t = { s with bindings := bindings } := by
  rw [cleanVariables] at h
  split at h
  next bindings hnumeric =>
    obtain ⟨x, hx, rfl⟩ := cleanLast_eq h
    exact ⟨_, numeric_setLast (numericVariables_finite hnumeric) hx, rfl⟩
  · cases h

theorem restoredHistory_length (limits : Limits) (j : Option Json) :
    (restoredHistory limits j).length ≤ limits.history := by
  unfold restoredHistory
  split
  · exact length_lastOf _ _
  · exact Nat.zero_le _

theorem restoredResults_length (limits : Limits) (j : Option Json) :
    (restoredResults limits j).length ≤ limits.results := by
  unfold restoredResults
  split
  · exact length_lastOf _ _
  · exact Nat.zero_le _

theorem restoredCursor_bounds (history : List String) (j : Option Json) :
    0 ≤ (restoredCursor history j).place ∧ (restoredCursor history j).place ≤ history.length := by
  unfold restoredCursor
  split
  · split
    next hbounds => exact hbounds
    · exact ⟨Int.natCast_nonneg _, le_rfl⟩
  · exact ⟨Int.natCast_nonneg _, le_rfl⟩

theorem safe_restore {j : Json} (h : restore limits j = .ok s) : Safe limits s := by
  simp only [restore] at h
  split at h
  · cases h
  next t hclean =>
    obtain ⟨bindings, hnumeric, rfl⟩ := numeric_cleanVariables hclean
    cases h
    exact ⟨rfl, hnumeric, restoredHistory_length _ _, restoredResults_length _ _,
      restoredCursor_bounds _ _⟩

theorem Starts.safe (h : Starts limits s) : Safe limits s := by
  cases h with
  | fresh => exact safe_fresh limits
  | restored h => exact safe_restore h

/-- Whatever a session starts from and whatever a user does with it, no line breaks off; the last
result and all variables are finite doubles; and the history, the log and the cursor stay within
their bounds. -/
theorem run_safe (h : Starts limits s) (actions : List Action) :
    (∀ r, .entry r ∈ s.shown actions → ∃ e, r = .ok e) ∧
    (∃ x : Float, (s.after actions).value? lastName = some (.float x) ∧ x.isFinite = true) ∧
    (∀ name j, (name, j) ∈ (s.after actions).bindings → name ≠ lastName →
      ∃ x : Float, j = .float x ∧ x.isFinite = true) ∧
    (s.after actions).history.length ≤ limits.history ∧
    (s.after actions).results.length ≤ limits.results ∧
    0 ≤ (s.after actions).cursor.place ∧
    (s.after actions).cursor.place ≤ (s.after actions).history.length := by
  have hafter := h.safe.after actions
  refine ⟨?_, hafter.numeric.last, hafter.numeric.others, hafter.history, hafter.results,
    hafter.cursor⟩
  intro r hr
  exact h.safe.shown actions _ hr

/-- A session restored from a history that is too long, a cursor outside of it and values that are
no numbers. -/
theorem run_safe_restored :
    ∃ s, restore ⟨1, 1, 1⟩ (.object
        [("history", .list [.int 1, .null]), ("historyIndex", .int 7),
          ("variables", .object [("x", .list []), ("@", .str "7 km")])]) = .ok s ∧
      (∀ r, .entry r ∈ s.shown [.submit "y = 2", .older, .submit "/ 0", .newer] →
        ∃ e, r = .ok e) ∧
      (s.after [.submit "y = 2", .older, .submit "/ 0", .newer]).history.length ≤ 1 := by
  obtain ⟨s, hs⟩ : ∃ s, restore ⟨1, 1, 1⟩ (.object
      [("history", .list [.int 1, .null]), ("historyIndex", .int 7),
        ("variables", .object [("x", .list []), ("@", .str "7 km")])]) = .ok s := ⟨_, rfl⟩
  have hsafe := run_safe (.restored hs) [.submit "y = 2", .older, .submit "/ 0", .newer]
  exact ⟨s, hs, hsafe.1, hsafe.2.2.2.1⟩

end DeskCalc.Session
