import DeskCalc.Api.Address
import DeskCalc.Api.Request
import DeskCalc.Api.Response
import DeskCalc.Session.Snapshot
import DeskCalc.Session.Submit
import DeskCalc.Store

/-!
# Answering requests

The calculator answers queries without a session, and within a session that the store keeps.  A
session is loaded for each request and saved after it, so that only the store carries over from one
request to the next.
-/

namespace DeskCalc.Api

/-- What a handler answers, and the store after it. -/
abbrev Handled := Store × Except Problem Response

/-! ### Queries -/

/-- Whether a document that is not empty has a query, if such a question makes sense for it. -/
def hasQuery? : Json → Option Bool
  | .object members => some (members.lookup "query").isSome
  | .list items => some (items.any fun j => j matches .str "query")
  | .str s => some (Text.occursIn "query".toList s.toList)
  | _ => none

/-- The document that a request carries, if any. -/
def carried (r : Request) : Except Problem (Option Json) :=
  r.document.mapError fun _ => .unexpected

/-- The query of a request.  Its document has to be an object; a list or a string in which the word
occurs cannot be handled, nor can a number. -/
def query (r : Request) : Except Problem Text := do
  let document := (← carried r).getD .null
  if document.isEmpty then .error .missingQuery
  else
    match hasQuery? document with
    | none => .error .unexpected
    | some false => .error .missingQuery
    | some true =>
      match document.get? "query" with
      | none => .error .unexpected
      | some j =>
        let text := Text.strip j.plain
        if text.isEmpty then .error .emptyQuery else .ok text

/-- The members that every entry of the log is answered with. -/
def entryMembers (e : Entry) : List (String × Json) :=
  [("result", .str e.output), ("type", .str e.kind)]

/-- The answer to a query that cleared the session. -/
def cleared : Response :=
  .success [("result", .null), ("cleared", .bool true)]

/-- The answer to a query without a session. -/
def calculate (limits : Limits) (r : Request) : Except Problem Response := do
  let line ← query r
  if (Session.assignment? line).isSome then throw .assignmentOutside
  match ((Session.fresh limits).submit (String.ofList line)).2 with
  | .error _ => throw .brokenOff
  | .ok none => return cleared
  | .ok (some e) =>
    if e.isFailure then throw (.rejected e.error) else return .success (entryMembers e)

/-! ### Sessions -/

/-- Creates a session. -/
def createSession (limits : Limits) (store : Store) : Handled :=
  match store.create (Session.fresh limits).snapshot with
  | (store, some name) => (store, .ok ⟨201, some (.object [("session_id", .str name)])⟩)
  | (store, none) => (store, .error .notCreated)

/-- The session of a name, as the store has it. -/
def loadSession (limits : Limits) (store : Store) (name : String) : Except Problem Session :=
  match store.load name with
  | .error _ => .error .unexpected
  | .ok none => .error (.unknownSession name)
  | .ok (some j) => (Session.restore limits j).mapError fun _ => .unexpected

/-- The variables and the history of a session. -/
def showSession (limits : Limits) (store : Store) (name : String) : Except Problem Response := do
  let s ← loadSession limits store name
  return .success [("variables", .object s.bindings), ("history", .list (s.history.map .str))]

/-- Deletes a session. -/
def deleteSession (store : Store) (name : String) : Handled :=
  match store.delete name with
  | (store, true) => (store, .ok ⟨204, none⟩)
  | (store, false) => (store, .error (.notDeleted name))

/-- What a query in a session is answered with, given the session after it. -/
def entryAnswer (s : Session) (line : Text) : Option Entry → Except Problem Response
  | none => .ok cleared
  | some e =>
    if e.isFailure then .error (.rejected e.error)
    else
      let named := match Session.assignment? line with
        | some (name, _) => [("variable_set", Json.str name)]
        | none => []
      .ok (.success (entryMembers e ++
        ("last_result", (s.value? Session.lastName).getD .null) :: named))

/-- Answers a query in a session.  The session is saved also when the query was at fault. -/
def calculateIn (limits : Limits) (store : Store) (name : String) (r : Request) : Handled :=
  match (do return (← query r, ← loadSession limits store name) : Except Problem _) with
  | .error p => (store, .error p)
  | .ok (line, s) =>
    match s.submit (String.ofList line) with
    | (_, .error _) => (store, .error .brokenOff)
    | (s, .ok e) =>
      match store.save name s.snapshot with
      | (store, true) => (store, entryAnswer s line e)
      | (store, false) => (store, .error .notSaved)

/-- The step through the history that a request asks for. -/
def direction (r : Request) : Except Problem Int := do
  match (← carried r).bind (Json.get? "direction") with
  | some (.int n) => if n = 1 ∨ n = -1 then .ok n else .error .noDirection
  | _ => .error .noDirection

/-- Steps through the history of a session. -/
def navigateIn (limits : Limits) (store : Store) (name : String) (r : Request) : Handled :=
  match (do return (← direction r, ← loadSession limits store name) : Except Problem _) with
  | .error p => (store, .error p)
  | .ok (step, s) =>
    let (s, line) := s.navigate step
    match store.save name s.snapshot with
    | (store, true) =>
      (store, .ok (.success [("input", .str line), ("index", s.cursor.toJson)]))
    | (store, false) => (store, .error .notSaved)

/-! ### Methods -/

/-- Whether a resource knows a method. -/
def Resource.knows : Resource → Method → Bool
  | _, .options => true
  | calculator, .post => true
  | sessions, .post => true
  | session _, .get => true
  | session _, .head => true
  | session _, .delete => true
  | sessionCalculator _, .post => true
  | sessionHistory _, .post => true
  | file, .get => true
  | file, .head => true
  | _, _ => false

/-- Answers a request about a resource that knows its method. -/
def handle (limits : Limits) (store : Store) (r : Request) : Resource → Handled
  | .calculator => (store, calculate limits r)
  | .sessions => createSession limits store
  | .session name =>
    if r.method = .delete then deleteSession store name
    else (store, showSession limits store name)
  | .sessionCalculator name => calculateIn limits store name r
  | .sessionHistory name => navigateIn limits store name r
  | .file => (store, .error .noResource)

/-- The answer if no resource has exactly this path.  A path that would fit with single slashes
instead of double ones is redirected. -/
def answerElsewhere (path : Text) (method : Method) : Response :=
  match Resource.ofPath? (mergeSlashes (path.dropWhile (· == '/'))) with
  | none => .ofProblem .noResource
  | some resource => if resource.knows method then ⟨308, none⟩ else .ofProblem .wrongMethod

/-- Answers a request, and gives the store after it. -/
def answer (limits : Limits) (store : Store) (r : Request) : Store × Response :=
  let path := addressPath r.address
  match Resource.ofPath? path with
  | none => (store, answerElsewhere path r.method)
  | some resource =>
    if !resource.knows r.method then (store, .ofProblem .wrongMethod)
    else if r.method = .options then (store, ⟨200, none⟩)
    else
      let (store, handled) := handle limits store r resource
      let response := Response.ofExcept handled
      (store, if r.method = .head then { response with body := none } else response)

end DeskCalc.Api
