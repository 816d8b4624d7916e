import DeskCalc.Api.Answer
import DeskCalc.Api.Line
import DeskCalc.Shell.Run
import DeskCalc.Store.Document
import Std.Time.Format

/-!
# The program

With arguments the program is the shell.  Without any it answers requests that come in line by
line.  The store and the workspace are files that are read at the beginning and written after each
change.
-/

namespace DeskCalc.Program

/-- A string from outside as a text. -/
def taken (s : String) : String :=
  String.ofList (Text.ofChars s.toList)

/-- A text as a string for outside. -/
def given (s : String) : String :=
  String.ofList (Text.toChars s.toList)

/-- The environment of the process, as far as the settings look at it. -/
def environment : IO Settings.Environment := do
  let values ← Settings.looksAt.filterMapM fun name => do
    return (← IO.getEnv name).map fun value => (name, taken value)
  return fun name => values.lookup name

/-- The text of a file, if there is one. -/
def readFile? (path : String) : IO (Option String) := do
  try
    return some (taken (← IO.FS.readFile (given path)))
  catch
    | .noFileOrDirectory .. => return none
    | e => throw e

/-- The file of the workspace. -/
def workspaceFile (s : Settings) : String :=
  s.workspaceFolder ++ "/workspace.json"

/-- The store of a file.  A file that cannot be read puts the store out of reach. -/
def readStore (s : Settings) : IO Store := do
  try
    match ← readFile? s.database with
    | none => return .empty
    | some text => return match Json.parse text with
      | .ok j => .ofJson j
      | .error _ => { Store.empty with isLost := true }
  catch _ => return { Store.empty with isLost := true }

/-- Reads the desk. -/
def readDesk (s : Settings) : IO Shell.Desk := do
  return ⟨← readStore s, ← readFile? (workspaceFile s)⟩

/-- Writes the desk, as far as it has changed. -/
def writeDesk (s : Settings) (before after : Shell.Desk) : IO Unit := do
  if after.store ≠ before.store ∧ !after.store.isLost then
    IO.FS.writeFile (given s.database) (given after.store.toJson.render)
  match after.file with
  | some text =>
    if before.file ≠ some text then
      IO.FS.createDirAll (given s.workspaceFolder)
      IO.FS.writeFile (given (workspaceFile s)) (given text)
  | none => return

/-- The present time. -/
def now : IO String :=
  return toString (← Std.Time.PlainDateTime.now)

/-- Prints lines. -/
def say (lines : List String) : IO Unit := do
  lines.forM fun line => IO.println (given line)
  (← IO.getStdout).flush

/-- The line that comes next, without its line break. -/
def nextLine? : IO (Option String) := do
  let line ← (← IO.getStdin).getLine
  return if line.isEmpty then none else some (taken (String.ofList (line.toList.filter (· ≠ '\n'))))

/-- Says what broke a run off. -/
def report (b : Shell.Breakdown) : IO UInt32 := do
  IO.eprintln (match b with
    | .storeLost => "The store is out of reach."
    | .fault _ => "A stored document cannot be used."
    | .noObject => "The workspace has an unexpected form."
    | .noRecord => "The workspace has an unexpected form."
    | .noExpression => "An expression is missing.")
  return 1

/-- Holds a dialogue with an open shell. -/
partial def talk (s : Settings) (sh : Shell) : IO UInt32 := do
  IO.print "calc> "
  (← IO.getStdout).flush
  let turn := sh.respond (← now) ((← nextLine?).map .line)
  say turn.said
  match turn.next with
  | .inl next =>
    writeDesk s sh.desk next.desk
    talk s next
  | .inr desk =>
    writeDesk s sh.desk desk
    return 0

/-- Answers requests until the input ends. -/
partial def answerAll (s : Settings) (desk : Shell.Desk) : IO UInt32 := do
  match ← nextLine? with
  | none => return 0
  | some line =>
    let (store, response) := Api.answer s.limits desk.store (.ofLine line.toList)
    let next := { desk with store := store }
    writeDesk s desk next
    say [response.line]
    answerAll s next

/-- Ends a run with what it left behind. -/
def finish (s : Settings) (before : Shell.Desk) (o : Shell.Outcome) : IO UInt32 := do
  writeDesk s before o.desk
  say o.printed
  o.complaints.forM fun line => IO.eprintln (given line)
  match o.ending with
  | .exit status => return status.toUInt32
  | .serving => answerAll s o.desk
  | .broken b => report b

/-- Runs the program under its settings. -/
def run (s : Settings) (words : List String) : IO UInt32 := do
  let desk ← readDesk s
  if words.isEmpty then finish s desk (Shell.serve desk)
  else
    match Shell.prepare s.limits words desk with
    | .inl outcome => finish s desk outcome
    | .inr a =>
      let opened := Shell.openShell s.limits false (← now) a desk
      say opened.said
      match opened.result with
      | .error (left, b) =>
        writeDesk s desk left
        report b
      | .ok sh =>
        writeDesk s desk sh.desk
        talk s sh

end DeskCalc.Program

/-- The program: its settings come from the environment and its words from the command line. -/
def main (words : List String) : IO UInt32 := do
  match DeskCalc.Settings.read (← DeskCalc.Program.environment) with
  | .ok s => DeskCalc.Program.run s (words.map DeskCalc.Program.taken)
  | .error _ =>
    IO.eprintln "A setting is no integer."
    return 1
