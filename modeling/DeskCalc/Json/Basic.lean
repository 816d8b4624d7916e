/-!
# Documents

The values that requests carry and that saved sessions consist of.  Integers and doubles are kept
apart, since they are read and written differently, and the members of an object keep the order in
which their names first came.
-/

namespace DeskCalc

/-- A document. -/
inductive Json where
  | null
  | bool (b : Bool)
  | int (n : Int)
  | float (x : Float)
  | str (s : String)
  | list (items : List Json)
  | object (members : List (String × Json))
deriving Inhabited

namespace Json

/-- Members with the value of a name set: in its place if it is there, and last if not. -/
def setMember (name : String) (value : Json) :
    List (String × Json) → List (String × Json)
  | [] => [(name, value)]
  | (n, v) :: rest => if n = name then (n, value) :: rest else (n, v) :: setMember name value rest

/-- Members without the one of a name. -/
def dropMember (name : String) (members : List (String × Json)) : List (String × Json) :=
  members.filter (·.1 ≠ name)

/-- The value of a member of an object; other documents have no members. -/
def get? (name : String) : Json → Option Json
  | object members => members.lookup name
  | _ => none

/-- Whether a document counts as empty: null, false, zero, and what has no parts. -/
def isEmpty : Json → Bool
  | null => true
  | bool b => !b
  | int n => n == 0
  | float x => x == 0
  | str s => s.isEmpty
  | list items => items.isEmpty
  | object members => members.isEmpty

end Json
end DeskCalc
