import DeskCalc.Json.Reader
import DeskCalc.Text.Utf8

/-!
# Addresses

The address of a request names a resource.  It is taken without a host and without the parts behind
a question mark or a number sign, and its escapes stand for bytes.
-/

namespace DeskCalc.Api

/-- What a request may be about. -/
inductive Resource where
  /-- the calculator without a session -/
  | calculator
  /-- the sessions as a whole -/
  | sessions
  | session (name : String)
  | sessionCalculator (name : String)
  | sessionHistory (name : String)
  /-- a file; there are none, but they have addresses -/
  | file
deriving Repr, DecidableEq

/-- The bytes that the bytes of an address stand for.  An escape is a percent sign with two
hexadecimal digits, and all else stands for itself. -/
def unescaped : List Nat → List Nat
  | 0x25 :: a :: b :: rest =>
    match Json.hexValue? (Char.ofNat a), Json.hexValue? (Char.ofNat b) with
    | some m, some n => (16 * m + n) :: unescaped rest
    | _, _ => 0x25 :: unescaped (a :: b :: rest)
  | byte :: rest => byte :: unescaped rest
  | [] => []

/-- The address without the scheme before a colon. -/
def dropScheme (address : Text) : Text :=
  let name := address.takeWhile fun c => c.isAlphanum || c == '+' || c == '-' || c == '.'
  match address.drop name.length with
  | ':' :: rest => if name.head?.any Char.isAlpha then rest else address
  | _ => address

/-- Whether a path ends before a character. -/
def endsPath (c : Char) : Bool :=
  c == '?' || c == '#'

/-- The address without the host behind two slashes. -/
def dropHost : Text → Text
  | '/' :: '/' :: rest => rest.dropWhile fun c => c ≠ '/' && !endsPath c
  | address => address

/-- The address without scheme, host and what follows its path. -/
def bareAddress (address : Text) : Text :=
  (dropHost (dropScheme address)).takeWhile fun c => !endsPath c

/-- The path of an address.  A host is taken off twice, since what is left of the address may begin
with two slashes again. -/
def addressPath (address : Text) : Text :=
  Text.ofUtf8 (unescaped (Text.toUtf8 (bareAddress (bareAddress address))))

/-- The parts of a path between its slashes. -/
def pathParts (path : Text) : List Text :=
  path.splitOn '/'

/-- The resource of a path, given by its parts without the empty one before the first slash. -/
def Resource.ofParts? : List Text → Option Resource
  | [top] =>
    if top = "calculate".toList then some calculator
    else if top = "sessions".toList then some sessions
    else none
  | [top, name] =>
    if name.isEmpty then none
    else if top = "sessions".toList then some (session (String.ofList name))
    else if top = "static".toList then some file
    else none
  | [top, name, part] =>
    if name.isEmpty then none
    else if top = "sessions".toList then
      if part = "calculate".toList then some (sessionCalculator (String.ofList name))
      else if part = "history".toList then some (sessionHistory (String.ofList name))
      else none
    else if top = "static".toList then some file
    else none
  | top :: name :: _ => if top = "static".toList ∧ !name.isEmpty then some file else none
  | [] => none

/-- The resource of a path. -/
def Resource.ofPath? (path : Text) : Option Resource :=
  ofParts? (pathParts (path.dropWhile (· == '/')))

/-- The path with one slash instead of two wherever two stand side by side. -/
def mergeSlashes : Text → Text
  | '/' :: '/' :: rest => '/' :: mergeSlashes rest
  | c :: rest => c :: mergeSlashes rest
  | [] => []

end DeskCalc.Api
