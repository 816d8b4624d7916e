import DeskCalc.Proofs.Session.Snapshot

/-!
# Sessions that differ in halves only

A session that is saved and loaded after each line is not always the session that stays in memory:
where the halves of a pair meet in a line of the history, one character stands there after loading.
This is the only difference, and it never comes to matter.  Lines are evaluated with the variables
alone, the texts of the history are only shown, and whoever reads them joins the halves as well.
-/

namespace DeskCalc.Session

open Json (nestingRoom)
open Text (joinedString joinedString_joinedString)

/-- The session `t` is `s`, but for halves of pairs and for the log; and its document can be read
back. -/
structure Mirrors (s t : Session) : Prop extends Writable t where
  limits : t.limits = s.limits
  cursor : t.cursor = s.cursor
  bindings : t.bindings = s.bindings
  history : t.history.map joinedString = s.history.map joinedString
  inputValue : joinedString t.inputValue = joinedString s.inputValue

variable {s t : Session}

theorem mirrors_fresh (limits : Limits) : Mirrors (fresh limits) (fresh limits) :=
  { writable_fresh limits with
    limits := rfl
    cursor := rfl
    bindings := rfl
    history := rfl
    inputValue := rfl }

/-- A session whose document can be read back mirrors itself. -/
theorem Writable.mirrors (h : s.Writable) : Mirrors s s :=
  { h with
    limits := rfl
    cursor := rfl
    bindings := rfl
    history := rfl
    inputValue := rfl }

/-- Loading a session joins its halves. -/
theorem Mirrors.joined (h : Mirrors s t) : Mirrors s t.joined :=
  { h with
    history := by
      rw [Session.joined, List.map_map, ← h.history]
      exact List.map_congr_left fun line _ => joinedString_joinedString line
    inputValue := (joinedString_joinedString _).trans h.inputValue
    errors := List.forall_mem_map.mpr fun e he => (h.errors e he).joined }

theorem Mirrors.length_history (h : Mirrors s t) : t.history.length = s.history.length := by
  have hlength := congrArg List.length h.history
  rwa [List.length_map, List.length_map] at hlength

/-! ## Operations -/

theorem Mirrors.setVariable (h : Mirrors s t) {name : String} (hname : Text.Storable name.toList)
    (value : Json) : Mirrors (s.setVariable name value) (t.setVariable name value) :=
  { h with
    bindings := congrArg (Json.setMember name value) h.bindings
    distinct := Json.nodup_setMember h.distinct
    names := fun n hn => (Json.mem_names_setMember hn).elim (fun heq => heq ▸ hname) (h.names n) }

theorem Mirrors.setLast (h : Mirrors s t) (x : Float) : Mirrors (s.setLast x) (t.setLast x) :=
  h.setVariable storable_lastName _

theorem Mirrors.addResult (h : Mirrors s t) {e : Entry}
    (he : Json.Writable (nestingRoom - 3) e.error) : Mirrors (s.addResult e) (t.addResult e) := by
  refine { h with errors := fun f hf => ?_ }
  rcases List.mem_append.mp (mem_of_mem_lastOf hf) with hf | hf
  · exact h.errors f hf
  · rwa [List.mem_singleton.mp hf]

theorem map_lastOf {α β : Type} (f : α → β) (n : Nat) (xs : List α) :
    (lastOf n xs).map f = lastOf n (xs.map f) := by
  rw [lastOf, lastOf, List.map_drop, List.length_map]

theorem Mirrors.addHistory (h : Mirrors s t) (line : String) :
    Mirrors (s.addHistory line) (t.addHistory line) := by
  have hlines : (lastOf t.limits.history (t.history ++ [line])).map joinedString =
      (lastOf s.limits.history (s.history ++ [line])).map joinedString := by
    rw [map_lastOf, map_lastOf, List.map_append, List.map_append, h.history, h.limits]
  have hlength := congrArg List.length hlines
  rw [List.length_map, List.length_map] at hlength
  exact { h with
    history := hlines
    cursor := congrArg (fun n : Nat => Mark.at n) hlength }

theorem Mirrors.limitVariables (h : Mirrors s t) :
    Mirrors s.limitVariables t.limitVariables := by
  have hbindings : t.limitVariables.bindings = s.limitVariables.bindings := by
    rw [Session.limitVariables, Session.limitVariables, sortedNames, sortedNames, names, names,
      h.bindings, h.limits]
  have hsublist := (List.filter_sublist (l := t.bindings) (p := fun v =>
    !(t.sortedNames.take (t.sortedNames.length - t.limits.bindings)).contains v.1)).map Prod.fst
  exact { h with
    bindings := hbindings
    distinct := h.distinct.sublist hsublist
    names := fun n hn => h.names n (hsublist.subset hn) }

theorem joinedString_getD {lines more : List String}
    (h : lines.map joinedString = more.map joinedString) (i : Nat) :
    joinedString (lines[i]?.getD "") = joinedString (more[i]?.getD "") := by
  have hline : lines[i]?.map joinedString = more[i]?.map joinedString := by
    rw [← List.getElem?_map, ← List.getElem?_map, h]
  rw [← Option.getD_map joinedString, ← Option.getD_map joinedString, hline]

theorem Mirrors.navigate (h : Mirrors s t) (step : Int) :
    joinedString (t.navigate step).2 = joinedString (s.navigate step).2 ∧
      Mirrors (s.navigate step).1 (t.navigate step).1 := by
  have hempty : t.history.isEmpty = s.history.isEmpty := by
    rw [← List.isEmpty_map (f := joinedString), h.history, List.isEmpty_map]
  rw [Session.navigate, Session.navigate, hempty, h.cursor, h.length_history]
  split
  · exact ⟨h.inputValue, h⟩
  · have hline := joinedString_getD h.history
      (min (max (s.cursor.place + step) 0) s.history.length).toNat
    exact ⟨hline, { h with cursor := rfl, inputValue := hline }⟩

/-! ## Submitting lines -/

/-- Two sessions give the same entry, and what differs in them afterwards is halves only. -/
def Agree (x y : Submitted) : Prop :=
  y.2 = x.2 ∧ Mirrors x.1 y.1

theorem Mirrors.evaluate (h : Mirrors s t) (expression : Text) :
    t.evaluate expression = s.evaluate expression := by
  rw [Session.evaluate, Session.evaluate, h.bindings]

theorem Mirrors.conclude (h : Mirrors s t) {e : Entry}
    (he : Json.Writable (nestingRoom - 3) e.error) : Agree (s.conclude e) (t.conclude e) :=
  ⟨rfl, h.addResult he⟩

theorem Mirrors.assignAnswer (h : Mirrors s t) (line : String) {name : String}
    (hname : Text.mark ∉ name.toList) (answer : Text) :
    Agree (s.assignAnswer line name answer) (t.assignAnswer line name answer) := by
  rw [Session.assignAnswer, Session.assignAnswer]
  cases finiteAnswer answer with
  | error f => exact ⟨rfl, h⟩
  | ok number =>
    cases number with
    | none => exact (h.setLast 0).conclude .null
    | some x =>
      exact ((h.setVariable (Text.storable_of_mark_not_mem hname) _).setLast x).conclude .null

theorem Mirrors.assignValue (h : Mirrors s t) (line : String) {name : String}
    (hname : Text.mark ∉ name.toList) (expression : Text) :
    Agree (s.assignValue line name expression) (t.assignValue line name expression) := by
  rw [Session.assignValue, Session.assignValue, h.evaluate]
  split
  · exact ⟨rfl, h⟩
  · exact h.conclude (.str _)
  next x _ =>
    exact ((h.setVariable (Text.storable_of_mark_not_mem hname) _).setLast x).conclude .null

theorem Mirrors.assign (h : Mirrors s t) (line : Text) : Agree (s.assign line) (t.assign line) := by
  rw [Session.assign, Session.assign]
  split
  · exact ⟨rfl, h⟩
  next hassignment =>
    split
    · exact h.assignAnswer _ (assignment?_name hassignment) _
    · exact h.assignValue _ (assignment?_name hassignment) _

theorem Mirrors.concludeAnswer (h : Mirrors s t) (line : String) (answer : Text) :
    Agree (s.concludeAnswer line answer) (t.concludeAnswer line answer) := by
  rw [Session.concludeAnswer, Session.concludeAnswer]
  cases finiteAnswer answer with
  | error f => exact ⟨rfl, h⟩
  | ok number => exact (h.setLast _).conclude .null

theorem Mirrors.concludeExpression (h : Mirrors s t) (line : Text) :
    Agree (s.concludeExpression line) (t.concludeExpression line) := by
  have hlast : t.value? lastName = s.value? lastName := congrArg (List.lookup lastName) h.bindings
  rw [Session.concludeExpression, Session.concludeExpression, h.evaluate]
  split
  · exact ⟨rfl, h⟩
  · rw [mendLast, mendLast, hlast]
    cases ((s.value? lastName).getD .null).isFiniteNumber with
    | error f => exact ⟨rfl, h⟩
    | ok b =>
      cases b with
      | true => exact h.conclude (.str _)
      | false => exact (h.setLast 0).conclude (.str _)
  next x _ => exact (h.setLast x).conclude .null

theorem Mirrors.answerLine (h : Mirrors s t) (line : Text) :
    Agree (s.answerLine line) (t.answerLine line) := by
  rw [Session.answerLine, Session.answerLine]
  split
  · exact h.concludeAnswer _ _
  · exact h.concludeExpression line

/-- A line gives the same entry in both sessions. -/
theorem Mirrors.submit (h : Mirrors s t) (raw : String) : Agree (s.submit raw) (t.submit raw) := by
  have hentered :
      Mirrors { s.addHistory (String.ofList (Text.strip raw.toList)) with inputValue := "" }
        { t.addHistory (String.ofList (Text.strip raw.toList)) with inputValue := "" } :=
    { h.addHistory (String.ofList (Text.strip raw.toList)) with inputValue := rfl }
  simp only [Session.submit]
  split
  · exact ⟨rfl, h⟩
  · split
    · refine ⟨rfl, ?_⟩
      rw [clear, clear, hentered.limits]
      exact mirrors_fresh _
    · have hassigned := hentered.assign (Text.strip raw.toList)
      revert hassigned
      generalize Session.assign { s.addHistory _ with inputValue := "" } _ = x
      generalize Session.assign { t.addHistory _ with inputValue := "" } _ = y
      obtain ⟨u, r⟩ := x
      obtain ⟨v, q⟩ := y
      rintro ⟨hentry, hassigned⟩
      obtain rfl : q = r := hentry
      cases q with
      | error f => exact ⟨rfl, hassigned⟩
      | ok e =>
        cases e with
        | none => exact hassigned.answerLine _
        | some e => exact ⟨rfl, hassigned.limitVariables⟩

end DeskCalc.Session
