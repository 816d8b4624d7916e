import DeskCalc.Session.Basic

/-!
# Responses

A request is answered by a document or by a problem.  Each problem has a status and, most of them,
an explanation.
-/

namespace DeskCalc.Api

/-- Why a request is not answered as hoped for. -/
inductive Problem where
  /-- there is no document with a query -/
  | missingQuery
  /-- the query is blank -/
  | emptyQuery
  /-- there is no session that could keep the variable -/
  | assignmentOutside
  /-- the step through the history is neither one forth nor one back -/
  | noDirection
  /-- the calculator gave an error -/
  | rejected (error : Json)
  | unknownSession (name : String)
  | notDeleted (name : String)
  | notCreated
  | notSaved
  /-- the calculator broke off -/
  | brokenOff
  /-- the request or the stored session could not be handled at all -/
  | unexpected
  /-- no resource has this address -/
  | noResource
  /-- the resource of this address does not know the method -/
  | wrongMethod

namespace Problem

/-- The status of a problem. -/
def status : Problem → Nat
  | missingQuery => 400
  | emptyQuery => 400
  | assignmentOutside => 400
  | noDirection => 400
  | rejected _ => 400
  | unknownSession _ => 404
  | notDeleted _ => 404
  | notCreated => 500
  | notSaved => 500
  | brokenOff => 500
  | unexpected => 500
  | noResource => 404
  | wrongMethod => 405

/-- The explanation of a problem. -/
def error? : Problem → Option Json
  | missingQuery => some (.str "Missing 'query' in JSON payload")
  | emptyQuery => some (.str "Query cannot be empty")
  | assignmentOutside =>
    some (.str "Variable assignments require a session. Use /sessions endpoint.")
  | noDirection => some (.str "'direction' must be -1 or 1")
  | rejected error => some error
  | unknownSession name => some (.str ("Session '" ++ name ++ "' not found or failed to load"))
  | notDeleted name => some (.str ("Failed to delete session '" ++ name ++ "' (may not exist)"))
  | notCreated => some (.str "Failed to create session")
  | notSaved => some (.str "Failed to save session")
  | brokenOff => some (.str "An internal server error occurred during calculation.")
  | unexpected => none
  | noResource => none
  | wrongMethod => none

end Problem

/-- The answer to a request. -/
structure Response where
  status : Nat
  body : Option Json

namespace Response

/-- A document as answer to a request that succeeded. -/
def success (members : List (String × Json)) : Response :=
  ⟨200, some (.object members)⟩

/-- The answer that reports a problem. -/
def ofProblem (p : Problem) : Response :=
  ⟨p.status, p.error?.map fun e => .object [("error", e)]⟩

/-- The response of a handler. -/
def ofExcept : Except Problem Response → Response
  | .ok r => r
  | .error p => ofProblem p

end Response
end DeskCalc.Api
