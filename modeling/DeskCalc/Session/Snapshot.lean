import DeskCalc.Json.Reader
import DeskCalc.Json.Writer
import DeskCalc.Session.Basic
import DeskCalc.Session.Value

/-!
# Storing and restoring sessions

A snapshot is the document of a session.  Any document can be restored: parts that are missing or
of another kind are left at their defaults, texts are taken from whatever stands there, and
variables that have no finite number are dropped.  Only an integer variable that is too large for
a double makes restoring break off.
-/

namespace DeskCalc

namespace Entry

/-- The document of an entry. -/
def toJson (e : Entry) : Json :=
  .object [("input", .str e.input), ("output", .str e.output), ("kind", .str e.kind),
    ("error", e.error)]

/-- The text of a member, or a default if there is no such member. -/
def textMember (members : List (String × Json)) (name default : String) : String :=
  match members.lookup name with
  | some j => String.ofList j.plain
  | none => default

/-- The entry that an object describes; other documents describe none. -/
def ofJson? : Json → Option Entry
  | .object members =>
    some ⟨textMember members "input" "", textMember members "output" "",
      textMember members "kind" normal, (members.lookup "error").getD .null⟩
  | _ => none

end Entry

namespace Session

/-- The document of a session. -/
def snapshot (s : Session) : Json :=
  .object
    [("history", .list (s.history.map .str)),
     ("historyIndex", s.cursor.toJson),
     ("variables", .object s.bindings),
     ("resultsLog", .list (s.results.map Entry.toJson)),
     ("inputValue", .str s.inputValue),
     ("cursorStart", s.cursorStart.toJson),
     ("cursorEnd", s.cursorEnd.toJson)]

/-- The variables besides the last result as finite doubles, without those that are none, and the
fault that a variable breaks off with; the variables from there on are left as they are. -/
def numericVariables : List (String × Json) → List (String × Json) × Option Fault
  | [] => ([], none)
  | (name, j) :: rest =>
    if name = lastName then
      let (rest, fault) := numericVariables rest
      ((name, j) :: rest, fault)
    else
      match j.leadingNumber with
      | .broken e => ((name, j) :: rest, some e)
      | .found x =>
        let (rest, fault) := numericVariables rest
        (if x.isFinite then (name, .float x) :: rest else rest, fault)
      | .nothing => numericVariables rest

/-- The session with a finite double as last result, zero if it was none. -/
def cleanLast (s : Session) : Session × Option Fault :=
  match ((s.value? lastName).getD .null).leadingNumber with
  | .broken e => (s, some e)
  | .found x => (s.setLast (if x.isFinite then x else 0), none)
  | .nothing => (s.setLast 0, none)

/-- The session with finite doubles as variables. -/
def cleanVariables (s : Session) : Session × Option Fault :=
  match numericVariables s.bindings with
  | (bindings, none) => { s with bindings := bindings }.cleanLast
  | (bindings, some e) => ({ s with bindings := bindings }, some e)

/-- The lines that a document gives as history. -/
def restoredHistory (limits : Limits) : Option Json → List String
  | some (.list lines) => lastOf limits.history (lines.map fun j => String.ofList j.plain)
  | _ => []

/-- The cursor that a document gives, if it lies within the history; else the end of the
history. -/
def restoredCursor (history : List String) (j : Option Json) : Mark :=
  match j.bind Mark.ofJson? with
  | some m => if 0 ≤ m.place ∧ m.place ≤ history.length then m else .at history.length
  | none => .at history.length

/-- The entries that a document gives as result log. -/
def restoredResults (limits : Limits) : Option Json → List Entry
  | some (.list entries) => lastOf limits.results (entries.filterMap Entry.ofJson?)
  | _ => []

/-- The session that a document describes. -/
def restore (limits : Limits) (j : Json) : Except Fault Session :=
  let history := restoredHistory limits (j.get? "history")
  let given : Session :=
    { fresh limits with
      history := history
      cursor := restoredCursor history (j.get? "historyIndex")
      bindings := match j.get? "variables" with
        | some (.object members) => members
        | _ => [(lastName, .float 0)] }
  let input := match j.get? "inputValue" with
    | some v => if v.isEmpty then "" else String.ofList v.plain
    | none => ""
  match given.cleanVariables with
  | (_, some e) => .error e
  | (s, none) =>
    .ok { s with
      results := restoredResults limits (j.get? "resultsLog")
      inputValue := input
      cursorStart := ((j.get? "cursorStart").bind Mark.ofJson?).getD (.at 0)
      cursorEnd := ((j.get? "cursorEnd").bind Mark.ofJson?).getD (.at 0) }

/-- The session that is restored from the stored text of this one. -/
def reload (s : Session) : Except Fault Session := do
  restore s.limits (← Json.parseOr .null s.snapshot.render)

end Session
end DeskCalc
