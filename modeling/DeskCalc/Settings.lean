import DeskCalc.Number.Reader
import DeskCalc.Session.Basic
import DeskCalc.Text.Lowercase

/-!
# Settings

The settings come from environment variables with a common beginning, and each has a default.  A
setting that has to be an integer and is none stops the program before anything else happens.
-/

namespace DeskCalc

/-- All that can be set. -/
structure Settings where
  database : String
  debug : Bool
  host : String
  port : Int
  logLevel : String
  maxHistory : Int
  maxVariables : Int
  maxResults : Int
  workspaceFolder : String
  lineHistoryFile : String
deriving Repr, DecidableEq

namespace Settings

/-- The values of environment variables. -/
abbrev Environment := String → Option String

/-- The full name of the variable of a setting. -/
def variableName (name : String) : String :=
  "CLOUDY_CALC_" ++ name

/-- All the variables that are looked at. -/
def looksAt : List String :=
  "HOME" :: ["DATABASE", "DEBUG", "HOST", "PORT", "LOG_LEVEL", "MAX_HISTORY", "MAX_VARIABLES",
    "MAX_RESULTS", "WORKSPACE_DIR", "HISTORY_FILE"].map variableName

/-- A setting that is a text. -/
def text (env : Environment) (name default : String) : String :=
  (env (variableName name)).getD default

/-- A setting that is an integer. -/
def integer (env : Environment) (name : String) (default : Int) : Except Fault Int :=
  match env (variableName name) with
  | none => .ok default
  | some s =>
    match Number.wholeInt? s.toList with
    | some n => .ok n
    | none => .error .notNumeric

/-- A setting that is on or off; only the word `true`, in either case, turns it on. -/
def switch (env : Environment) (name : String) : Bool :=
  Text.lower (text env name "false").toList == "true".toList

/-- The text without the slashes at its end. -/
def dropSlashes (s : Text) : Text :=
  (s.reverse.dropWhile (· == '/')).reverse

/-- The user's own folder with a slash behind it; without a name it is the root. -/
def homeFolder (env : Environment) : String :=
  String.ofList (dropSlashes ((env "HOME").getD "").toList) ++ "/"

/-- The settings in an environment. -/
def read (env : Environment) : Except Fault Settings := do
  let port ← integer env "PORT" 5200
  let maxHistory ← integer env "MAX_HISTORY" 100
  let maxVariables ← integer env "MAX_VARIABLES" 50
  let maxResults ← integer env "MAX_RESULTS" 100
  return {
    database := text env "DATABASE" "sessions.db"
    debug := switch env "DEBUG"
    host := text env "HOST" "0.0.0.0"
    port := port
    logLevel := text env "LOG_LEVEL" "INFO"
    maxHistory := maxHistory
    maxVariables := maxVariables
    maxResults := maxResults
    workspaceFolder := text env "WORKSPACE_DIR" (homeFolder env ++ ".config/cloudy_calc")
    lineHistoryFile := text env "HISTORY_FILE" (homeFolder env ++ ".cloudy_calc_history") }

/-- How much a session keeps under these settings. -/
def limits (s : Settings) : Limits :=
  ⟨s.maxHistory.toNat, s.maxVariables.toNat, s.maxResults.toNat⟩

end Settings
end DeskCalc
