import DeskCalc.Json.Reader
import DeskCalc.Text.Blank
import DeskCalc.Text.Encoding
import DeskCalc.Text.Letter
import DeskCalc.Text.Lowercase

/-!
# Requests

A request has a method, an address and possibly a body.  The body counts as a document only if its
content type says so and if it can be read.  The bytes of a body tell its encoding.
-/

namespace DeskCalc.Api

/-- The methods that some resource knows; all others are `other`. -/
inductive Method where
  | get
  | head
  | post
  | delete
  | options
  | other
deriving Repr, DecidableEq

/-- The method of a name, in either case. -/
def Method.ofName (name : String) : Method :=
  match String.ofList (Text.capitals name.toList) with
  | "GET" => get
  | "HEAD" => head
  | "POST" => post
  | "DELETE" => delete
  | "OPTIONS" => options
  | _ => other

/-- A request as it comes in. -/
structure Request where
  method : Method
  address : Text
  /-- the content type, if the request has a body -/
  contentType : Option Text
  /-- the bytes that follow the address -/
  body : List Nat

namespace Request

/-- Whether a content type is that of documents; what follows a semicolon does not matter. -/
def isDocumentType (contentType : Text) : Bool :=
  let kind := Text.lower (Text.strip (contentType.takeWhile (· ≠ ';')))
  kind == "application/json".toList ||
    ("application/".toList.isPrefixOf kind && "+json".toList.isSuffixOf kind)

/-- The text without a byte order mark before it. -/
def dropOrderMark : Text → Text
  | c :: rest => if c.toNat = 0xFEFF then rest else c :: rest
  | [] => []

/-- The document that a request carries, if any.  An integer of too many digits makes a body none,
but too much nesting breaks reading off. -/
def document (r : Request) : Except Fault (Option Json) :=
  if r.contentType.any isDocumentType then
    match (Text.ofDocumentBytes? r.body).map fun text => Json.read (dropOrderMark text) with
    | some (.ok j) => .ok (some j)
    | some (.error .tooDeep) => .error .tooDeep
    | some (.error _) => .ok none
    | none => .ok none
  else .ok none

end Request
end DeskCalc.Api
