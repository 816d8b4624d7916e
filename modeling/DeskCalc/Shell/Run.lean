import DeskCalc.Settings
import DeskCalc.Shell.Dialogue

/-!
# Runs of the program

A run reads its arguments and then evaluates the expressions among them, or holds a dialogue.  The
program as a whole serves requests instead if it has no arguments.
-/

namespace DeskCalc.Shell

/-- How a run ends. -/
inductive Ending where
  | exit (status : Nat)
  /-- requests are served from now on -/
  | serving
  | broken (b : Breakdown)
deriving Repr, DecidableEq

/-- What a run leaves behind. -/
structure Outcome where
  desk : Desk
  printed : List String
  complaints : List String
  ending : Ending

/-- What a run is given from outside. -/
structure Circumstances where
  settings : Settings
  /-- whether lines can be completed while they are typed -/
  completes : Bool
  now : String
  typed : List Typed

/-- What evaluating expressions one after the other gives. -/
structure Evaluated where
  session : Session
  printed : List String
  failed : Bool
  /-- what broke the evaluation off, if anything did -/
  breakdown : Option Breakdown

/-- Evaluates expressions, each with what the ones before it left.  A missing expression breaks the
evaluation off. -/
def evaluateAll (s : Session) : List (Option String) → Evaluated
  | [] => ⟨s, [], false, none⟩
  | none :: _ => ⟨s, [], true, some .noExpression⟩
  | some line :: rest =>
    match s.submit line with
    | (s, .error f) => ⟨s, [], true, some (.fault f)⟩
    | (s, .ok none) => evaluateAll s rest
    | (s, .ok (some e)) =>
      let r := evaluateAll s rest
      { r with printed := e.output :: r.printed, failed := e.isFailure || r.failed }

/-- The status of a run that evaluated expressions. -/
def Evaluated.ending (r : Evaluated) : Ending :=
  match r.breakdown with
  | some b => .broken b
  | none => .exit (if r.failed then 1 else 0)

/-- Evaluates expressions in a session of the store, which is saved at the end. -/
def evaluateIn (limits : Limits) (d : Desk) (name : String)
    (expressions : List (Option String)) : Outcome :=
  match d.store.open? with
  | none => ⟨d, [], [], .broken .storeLost⟩
  | some store =>
    match find limits store (.str name) with
    | .error b => ⟨d, [], [], .broken b⟩
    | .ok none => ⟨d, [], ["Session " ++ name ++ " not found."], .exit 1⟩
    | .ok (some (_, s)) =>
      let r := evaluateAll s expressions
      let store := if r.breakdown.isSome then store else (store.save name r.session.snapshot).1
      ⟨{ d with store := store }, r.printed, [], r.ending⟩

/-- Evaluates the expressions of the arguments. -/
def runExpressions (limits : Limits) (a : Arguments) (d : Desk) : Outcome :=
  match a.session with
  | some name => evaluateIn limits d name a.expressions
  | none =>
    let r := evaluateAll (.fresh limits) a.expressions
    ⟨d, r.printed, [], r.ending⟩

/-- Holds a dialogue. -/
def runDialogue (c : Circumstances) (a : Arguments) (d : Desk) : Outcome :=
  let opened := openShell c.settings.limits c.completes c.now a d
  match opened.result with
  | .error (d, b) => ⟨d, opened.said, [], .broken b⟩
  | .ok sh =>
    let (d, said) := sh.converse c.now c.typed
    ⟨d, opened.said ++ said, [], .exit 0⟩

/-- What arguments come to: an outcome, or a dialogue that is to be held. -/
def prepare (limits : Limits) (words : List String) (d : Desk) : Outcome ⊕ Arguments :=
  match Arguments.read words with
  | .refused => .inl ⟨d, [], usage, .exit 2⟩
  | .help => .inl ⟨d, usage, [], .exit 0⟩
  | .accepted a => if a.expressions.isEmpty then .inr a else .inl (runExpressions limits a d)

/-- A run of the shell. -/
def run (c : Circumstances) (words : List String) (d : Desk) : Outcome :=
  match prepare c.settings.limits words d with
  | .inl outcome => outcome
  | .inr a => runDialogue c a d

/-- Prepares to serve requests. -/
def serve (d : Desk) : Outcome :=
  match d.store.open? with
  | none => ⟨d, [], [], .broken .storeLost⟩
  | some store => ⟨{ d with store := store }, [], [], .serving⟩

/-- A run of the program. -/
def runProgram (c : Circumstances) (words : List String) (d : Desk) : Outcome :=
  if words.isEmpty then serve d else run c words d

end DeskCalc.Shell
