import DeskCalc.Session.Submit
import DeskCalc.Shell.Opening
import DeskCalc.Text.Lowercase

/-!
# The dialogue

Each line that is typed is a command of the shell or goes to the session.  After a line that went
to the session, the session is saved.  At the end the session is deleted, unless it is to be kept.
-/

namespace DeskCalc.Shell

/-- What the user does at the prompt. -/
inductive Typed where
  | line (text : String)
  | interrupt
deriving Repr, DecidableEq

/-- What a line is meant for. -/
inductive Command where
  | skip
  | leave
  | keep
  | showVariables
  | history
  | help
  | calculate
deriving Repr, DecidableEq

/-- The command of a line.  Commands may be written in either case. -/
def Command.ofLine (line : String) : Command :=
  match String.ofList (Text.lower (Text.strip line.toList)) with
  | "" => skip
  | "exit" => leave
  | "quit" => leave
  | "bye" => leave
  | "keep-session" => keep
  | "vars" => showVariables
  | "history" => history
  | "help" => help
  | _ => calculate

/-- A variable and its value as a line. -/
def variableLine (s : Session) (name : String) : String :=
  let value := match s.value? name with
    | some (.float x) => Number.numberText x
    | some j => j.plain
    | none => []
  "  " ++ name ++ " = " ++ String.ofList value

/-- All variables, the last result at the end. -/
def variableLines (s : Session) : List String :=
  (if s.names.isEmpty then ["No variables defined."]
    else "Current variables:" :: s.names.map (variableLine s)) ++
    [variableLine s Session.lastName]

/-- A number with blanks before it, so that it is at least three characters wide. -/
def counter (n : Nat) : Text :=
  let digits := Number.natText n
  List.replicate (3 - digits.length) ' ' ++ digits

/-- The history with numbers from one on. -/
def historyLines (s : Session) : List String :=
  if s.history.isEmpty then ["No history yet."]
  else s.history.zipIdx.map fun (line, i) =>
    "  " ++ String.ofList (counter (i + 1)) ++ "  " ++ line

/-- What the workspace says of a session that is kept. -/
def keptRemark : String := "Kept session"

/-- The shell with a word about its session in the workspace, and the workspace written. -/
def note (sh : Shell) (p : Place) (now : String) : Shell :=
  match p.workspace.remember p.id (some keptRemark) now with
  | .error _ => sh
  | .ok w => { sh with desk := sh.desk.write w, place := some { p with workspace := w } }

/-- Decides to keep the session. -/
def decideToKeep (sh : Shell) (now : String) : Shell × List String :=
  let sh := { sh with keep := true }
  match sh.place with
  | none => (sh, [])
  | some p =>
    (sh.note p now,
      ["Session " ++ p.title ++ " will be kept after exiting.",
       "The next time you run cloudy-calc, this session will be loaded automatically."])

/-- The shell with its session saved. -/
def save (sh : Shell) : Shell :=
  match sh.place with
  | none => sh
  | some p =>
    { sh with desk := { sh.desk with store := (sh.desk.store.save p.name sh.session.snapshot).1 } }

/-- Hands a line to the session. -/
def calculate (sh : Shell) (line : String) : Shell × List String :=
  let (s, result) := sh.session.submit line
  let sh := { sh with session := s }
  match result with
  | .error _ => (sh, ["Error processing input"])
  | .ok none => (sh.save, ["Cleared."])
  | .ok (some e) => (sh.save, [e.output])

/-- Carries out the command of a line, and gives what there is to print. -/
def carryOut (sh : Shell) (now line : String) : Command → Shell × List String
  | .skip => (sh, [])
  | .leave => (sh, [])
  | .keep => sh.decideToKeep now
  | .showVariables => (sh, variableLines sh.session)
  | .history => (sh, historyLines sh.session)
  | .help => (sh, guide)
  | .calculate => sh.calculate line

/-- Closes the shell, and gives the desk that is left and what there is to print. -/
def close (sh : Shell) (now : String) : Desk × List String :=
  let thanks := ["Thank you for using Cloudy Calculator!"]
  match sh.place with
  | none => (sh.desk, thanks)
  | some p =>
    if sh.keep then ((sh.note p now).desk, ("Keeping session: " ++ p.title) :: thanks)
    else
      let d := { sh.desk with store := (sh.desk.store.delete p.name).1 }
      (d.write (p.workspace.forget p.id), ("Deleting temporary session: " ++ p.title) :: thanks)

/-- What comes of something typed: what there is to print, and the shell that goes on or the desk
that is left. -/
structure Turn where
  said : List String
  next : Shell ⊕ Desk

/-- The turn that closes the shell after some last words. -/
def lastTurn (sh : Shell) (now : String) (words : List String) : Turn :=
  let (d, said) := sh.close now
  ⟨words ++ said, .inr d⟩

/-- Responds to what is typed, or to the end of the input. -/
def respond (now : String) (sh : Shell) : Option Typed → Turn
  | none => sh.lastTurn now [""]
  | some .interrupt => sh.lastTurn now ["", "Keyboard interrupt received. Exiting..."]
  | some (.line line) =>
    match Command.ofLine line with
    | .leave => sh.lastTurn now []
    | command =>
      let (sh, said) := sh.carryOut now line command
      ⟨said, .inl sh⟩

/-- The rest of a dialogue up to its end, and what is printed on the way. -/
def converse (now : String) (sh : Shell) : List Typed → Desk × List String
  | [] =>
    let turn := sh.respond now none
    (turn.next.elim Shell.desk id, turn.said)
  | typed :: rest =>
    let turn := sh.respond now (some typed)
    match turn.next with
    | .inl sh =>
      let (d, more) := sh.converse now rest
      (d, turn.said ++ more)
    | .inr d => (d, turn.said)

end DeskCalc.Shell
