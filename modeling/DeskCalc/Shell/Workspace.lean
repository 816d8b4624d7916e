import DeskCalc.Attempt
import DeskCalc.Json.Plain
import DeskCalc.Json.Reader
import DeskCalc.Json.Writer

/-!
# The workspace

The workspace is a file that remembers the last session and what is known of each session.  A file
that is no document counts as an empty one, but a document of an unexpected form breaks the shell
off where that form matters.
-/

namespace DeskCalc.Shell

/-- Why a run breaks off. -/
inductive Breakdown where
  /-- the store is out of reach -/
  | storeLost
  /-- a stored document cannot be used -/
  | fault (f : Fault)
  /-- the workspace, or its list of sessions, is no object -/
  | noObject
  /-- what the workspace knows of a session is no object -/
  | noRecord
  /-- an expression is missing -/
  | noExpression
deriving Repr, DecidableEq

/-- The document of a workspace file. -/
def readWorkspace : Option String → Except Breakdown Json
  | none => .ok (.object [])
  | some text => (Json.parseOr (.object []) text).mapError .fault

/-- The session that a workspace remembers as the last one, if any. -/
def lastSession? (j : Json) : Except Breakdown (Option Json) :=
  match j with
  | .object members =>
    match members.lookup "last_session_id" with
    | some last => .ok (if last.isEmpty then none else some last)
    | none => .ok none
  | _ => .error .noObject

/-- A workspace whose list of sessions is in order. -/
structure Workspace where
  /-- what is known of each session -/
  sessions : List (String × Json)
  /-- what is known of the session in use if its name is no text, after the text of that name -/
  apart : Option (String × Json)
  /-- all the other members -/
  others : List (String × Json)

namespace Workspace

/-- The workspace of a document. -/
def ofJson : Json → Except Breakdown Workspace
  | .object members =>
    let others := Json.dropMember "session_info" members
    match members.lookup "session_info" with
    | none => .ok ⟨[], none, others⟩
    | some (.object sessions) => .ok ⟨sessions, none, others⟩
    | some _ => .error .noObject
  | _ => .error .noObject

/-- All that is known of sessions.  The session that is kept apart takes the place of one whose
name is the same text. -/
def allSessions (w : Workspace) : List (String × Json) :=
  match w.apart with
  | none => w.sessions
  | some (name, known) => Json.setMember name known w.sessions

/-- The document of a workspace. -/
def toJson (w : Workspace) : Json :=
  .object (w.others ++ [("session_info", .object w.allSessions)])

/-- What is known of a session, if anything. -/
def known? (w : Workspace) : Json → Option Json
  | .str name => w.sessions.lookup name
  | _ => w.apart.map Prod.snd

/-- The workspace with all that is known of a session. -/
def setKnown (w : Workspace) (known : Json) : Json → Workspace
  | .str name => { w with sessions := Json.setMember name known w.sessions }
  | id => { w with apart := some (id.render, known) }

/-- What is known of a session; nothing but the time if it is new. -/
def record (w : Workspace) (id : Json) (now : String) :
    Except Breakdown (List (String × Json)) :=
  match w.known? id with
  | none => .ok [("created_at", .str now)]
  | some (.object members) => .ok members
  | some _ => .error .noRecord

/-- The workspace with a session as the last one. -/
def withLast (w : Workspace) (last : Json) : Workspace :=
  { w with others := Json.setMember "last_session_id" last w.others }

/-- Remembers that a session has been used, and a word about it if there is one. -/
def remember (w : Workspace) (id : Json) (remark : Option String) (now : String) :
    Except Breakdown Workspace := do
  let known := Json.setMember "last_used" (.str now) (← w.record id now)
  let known := match remark with
    | some text => Json.setMember "description" (.str text) known
    | none => known
  return (w.setKnown (.object known) id).withLast id

/-- Forgets the session in use, which is the last one. -/
def forget (w : Workspace) (id : Json) : Workspace :=
  let w := match id with
    | .str name => { w with sessions := Json.dropMember name w.sessions }
    | _ => { w with apart := none }
  w.withLast .null

end Workspace
end DeskCalc.Shell
