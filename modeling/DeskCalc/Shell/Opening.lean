import DeskCalc.Session.Snapshot
import DeskCalc.Shell.Arguments
import DeskCalc.Shell.Guide
import DeskCalc.Shell.Workspace
import DeskCalc.Store.Name

/-!
# Opening the shell

The shell goes on with the session that it is told, or with the last one, or begins a new one.  The
session is remembered in the workspace at once.  Without a session in the store the shell works all
the same, but keeps nothing.
-/

namespace DeskCalc
namespace Shell

/-- What outlives a run: the store, and the text of the workspace file if there is one. -/
structure Desk where
  store : Store
  file : Option String

namespace Desk

/-- The desk with a workspace written to the file. -/
def write (d : Desk) (w : Workspace) : Desk :=
  { d with file := some w.toJson.render }

end Desk

/-- The shell's own hold on a session of the store. -/
structure Place where
  /-- the name of the session, as it was given -/
  id : Json
  /-- the name that the store has for it -/
  name : String
  /-- the workspace that knows the session -/
  workspace : Workspace

/-- The name of a session, as the shell speaks of it. -/
def Place.title (p : Place) : String :=
  String.ofList p.id.plain

end Shell

/-- A shell at work. -/
structure Shell where
  desk : Shell.Desk
  session : Session
  /-- where the session is kept, unless the store has none for it -/
  place : Option Shell.Place
  /-- whether the session is to be kept at the end -/
  keep : Bool

namespace Shell

/-- The session to begin with, before the store is asked for a new one. -/
structure Choice where
  /-- the document of the workspace -/
  workspace : Json
  store : Store
  session : Session
  /-- the name of the session, as it was given and as the store has it, if the store has it -/
  name : Option (Json × String)
  /-- what there is to say about the choice -/
  said : List String

/-- The session that is asked for, if any. -/
def wanted (a : Arguments) (workspace : Json) : Except Breakdown (Option Json) :=
  match a.session with
  | some name => .ok (some (.str name))
  | none => if a.fresh then .ok none else lastSession? workspace

/-- A session of the store by the name that is remembered for it, with the name in the store. -/
def find (limits : Limits) (store : Store) (id : Json) :
    Except Breakdown (Option (String × Session)) := do
  match (← (Store.rowKey id).mapError .fault).name? with
  | none => return none
  | some name =>
    match store.load name with
    | .error f => throw (.fault f)
    | .ok none => return none
    | .ok (some j) =>
      match Session.restore limits j with
      | .error f => throw (.fault f)
      | .ok s => return some (name, s)

/-- Chooses the session to begin with. -/
def choose (limits : Limits) (a : Arguments) (d : Desk) : Except Breakdown Choice := do
  let workspace ← readWorkspace d.file
  let id ← wanted a workspace
  match d.store.open? with
  | none => throw .storeLost
  | some store =>
    match id with
    | none => return ⟨workspace, store, .fresh limits, none, []⟩
    | some id =>
      let shown := String.ofList id.plain
      match ← find limits store id with
      | some (name, s) =>
        return ⟨workspace, store, s, some (id, name), ["Loaded existing session: " ++ shown]⟩
      | none =>
        return ⟨workspace, store, .fresh limits, none,
          ["Session " ++ shown ++ " not found. Creating a new session."]⟩

/-- The choice after the store has been asked for a new session, if there was none. -/
def Choice.settle (c : Choice) : Choice :=
  match c.name with
  | some _ => c
  | none =>
    match c.store.create c.session.snapshot with
    | (store, none) => { c with store := store }
    | (store, some name) =>
      { c with
        store := store
        name := some (.str name, name)
        said := c.said ++ ["Session created: " ++ name] }

/-- What is said about the session's future. -/
def prospect : (kept hasPlace : Bool) → String
  | _, false => "Warning: Failed to create session. Variables won't be saved."
  | false, true => "Session will be deleted on exit. Use 'keep-session' command to keep it."
  | true, true => "Session will be kept after exiting."

/-- A shell that has been opened, or the desk that is left behind if this broke off; in any case
with what has been said. -/
structure Opened where
  said : List String
  result : Except (Desk × Breakdown) Shell

/-- The place of a session that is remembered in a workspace. -/
def takePlace (workspace id : Json) (name now : String) : Except Breakdown Place := do
  let w ← Workspace.ofJson workspace
  return ⟨id, name, ← w.remember id none now⟩

/-- Opens the shell. -/
def openShell (limits : Limits) (completes : Bool) (now : String) (a : Arguments) (d : Desk) :
    Opened :=
  match choose limits a d with
  | .error b => ⟨[], .error (d, b)⟩
  | .ok c =>
    let c := c.settle
    let d := { d with store := c.store }
    match c.name with
    | none =>
      ⟨c.said ++ greeting completes ++ [prospect a.keep false],
        .ok ⟨d, c.session, none, a.keep⟩⟩
    | some (id, name) =>
      match takePlace c.workspace id name now with
      | .error b => ⟨c.said, .error (d, b)⟩
      | .ok p =>
        ⟨c.said ++ greeting completes ++ [prospect a.keep true],
          .ok ⟨d.write p.workspace, c.session, some p, a.keep⟩⟩

end Shell
end DeskCalc
