import DeskCalc.Json.Reader
import DeskCalc.Json.Writer
import DeskCalc.Attempt

/-!
# The store

The store keeps the text of a document for each session, under the session's name.  It has to be
opened once before rows can be kept.  Two things may go wrong from outside: the store may be out of
reach, and then nothing can be done and nothing is lost, or its rows may be protected, and then
they can only be loaded.

A row whose text is no document is loaded as an empty one, and one that holds null counts as none.
Only a row with an integer of too many digits, or with too much nesting, makes loading break off.
-/

namespace DeskCalc

/-- The rows of all sessions, and what can be done with them. -/
structure Store where
  rows : List (String × String)
  /-- whether the store has been opened -/
  isOpen : Bool
  /-- whether the store is out of reach -/
  isLost : Bool
  /-- whether the rows are protected -/
  isProtected : Bool
  /-- how many names have been given out -/
  issued : Nat
deriving Repr, DecidableEq

namespace Store

/-- A store in which nothing has been kept. -/
def empty : Store :=
  ⟨[], false, false, false, 0⟩

/-- The text that is kept under a name. -/
def text? (s : Store) (name : String) : Option String :=
  s.rows.lookup name

/-- Rows with the text of a name set. -/
def setRow (name text : String) (rows : List (String × String)) : List (String × String) :=
  (name, text) :: rows.filter (·.1 ≠ name)

/-- Keeps a text as it is, whatever the state of the store. -/
def put (s : Store) (name text : String) : Store :=
  { s with rows := setRow name text s.rows }

/-- Whether rows can be read. -/
def canRead (s : Store) : Bool :=
  s.isOpen && !s.isLost

/-- Whether rows can be changed. -/
def canWrite (s : Store) : Bool :=
  s.canRead && !s.isProtected

/-- The store, opened, unless it is out of reach. -/
def open? (s : Store) : Option Store :=
  if s.isLost then none else some { s with isOpen := true }

/-- The document that a text is loaded as, if any. -/
def readRow (text : String) : Except Fault (Option Json) :=
  (Json.parseOr (.object []) text).map fun
    | .null => none
    | j => some j

/-- The document that is kept under a name, if there is one within reach. -/
def load (s : Store) (name : String) : Except Fault (Option Json) :=
  if s.canRead then
    match s.text? name with
    | some text => readRow text
    | none => .ok none
  else .ok none

/-- Keeps a document under a name, and tells whether that was possible. -/
def save (s : Store) (name : String) (j : Json) : Store × Bool :=
  if s.canWrite then (s.put name j.render, true) else (s, false)

/-- Drops the document under a name, and tells whether there was one that could be dropped. -/
def delete (s : Store) (name : String) : Store × Bool :=
  if s.canWrite && (s.text? name).isSome then
    ({ s with rows := s.rows.filter (·.1 ≠ name) }, true)
  else (s, false)

/-- The name of the `n`-th session. -/
def sessionName (n : Nat) : String :=
  "session-" ++ String.ofList (Number.natText n)

/-- Keeps a document under the next name and gives the name, if that was possible and the name was
still free.  A name that could not be used is not tried again, and an empty document is kept as an
empty object. -/
def create (s : Store) (j : Json) : Store × Option String :=
  let name := sessionName (s.issued + 1)
  let s := { s with issued := s.issued + 1 }
  if s.canWrite && (s.text? name).isNone then
    (s.put name (if j.isEmpty then Json.object [] else j).render, some name)
  else (s, none)

end Store
end DeskCalc
