import DeskCalc.Api.Request
import DeskCalc.Api.Response
import DeskCalc.Json.Writer

/-!
# Requests and responses as lines

A request on a line is a method, an address and possibly a document, with a space between each two
of them.  A response on a line is a status and possibly a document.
-/

namespace DeskCalc.Api

/-- What stands before and behind the first space. -/
def cutAtSpace (s : Text) : Text × Text :=
  (s.takeWhile (· ≠ ' '), (s.dropWhile (· ≠ ' ')).drop 1)

/-- The request on a line. -/
def Request.ofLine (line : Text) : Request :=
  let (method, rest) := cutAtSpace (Text.strip line)
  let (address, body) := cutAtSpace rest
  ⟨Method.ofName (String.ofList method), address,
    if body.isEmpty then none else some "application/json".toList, Text.toUtf8 body⟩

/-- The line of a response. -/
def Response.line (r : Response) : String :=
  String.ofList (Number.natText r.status) ++
    match r.body with
    | some j => " " ++ j.render
    | none => ""

end DeskCalc.Api
